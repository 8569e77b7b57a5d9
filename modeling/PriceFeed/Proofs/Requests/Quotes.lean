import PriceFeed.Proofs.Requests

/-!
# Quotes in requests

The params of an update are read if they are an object that holds a quote, whatever else it holds,
and are invalid otherwise. The confidence is checked here as well as by the board, and the two
checks agree: the board takes the confidence of any params that are read, and what it refuses no
params may have.

    UpdateParams.read params = .error e: it holds no quote                (read_eq_error_iff)
    the board refuses a confidence ↔ it is too great                      (exists_invalidParams_iff)
    … ↔ no params with it are read                                        (conf_refused_iff)

## Top theorem

    which params are read, and as what                                    (quote_read)
-/

namespace PriceFeed

open Json

/-- A board refuses params just for a confidence that is too great. -/
theorem Board.exists_invalidParams_iff (b : Board) (account : String) (publisher : Option String)
    (quote : Quote) :
    (∃ reason, b.submit account publisher quote = .error (.invalidParams reason)) ↔
      maxConf < quote.conf := by
  unfold submit accept
  split
  · next hconf => exact iff_of_true ⟨_, rfl⟩ hconf
  · next hconf =>
    refine iff_of_false ?_ hconf
    rintro ⟨reason, h⟩
    split at h
    · cases h
    · split at h <;> cases h

namespace UpdateParams

theorem read_eq_error_iff {params : Option Value} {e : RpcError} :
    UpdateParams.read params = .error e ↔ e = .invalidParams ∧ ¬ HasQuote params := by
  rw [hasQuote_iff]
  constructor
  · intro h
    refine ⟨readParams_eq_error h, ?_⟩
    rintro ⟨read, hok⟩
    rw [h] at hok
    cases hok
  · rintro ⟨rfl, hno⟩
    cases h : UpdateParams.read params with
    | ok read => exact absurd ⟨read, h⟩ hno
    | error e => rw [readParams_eq_error h]

/-- Params with an account, a price in range, this confidence and a status. -/
def withConf (conf : Nat) : Option Value :=
  some (.object [("account", .string ""), ("conf", .int conf), ("price", .int 0),
    ("status", .string Status.unknown.name)])

theorem read_withConf {conf : Nat} (h : conf ≤ Board.maxConf) :
    UpdateParams.read (withConf conf) = .ok ⟨"", 0, conf, .unknown⟩ := by
  have hprice : (0 : Int) ∈ IntRange.signed64 := by decide
  exact read_eq_ok_iff.2 ⟨rfl, ⟨hprice, rfl⟩, ⟨h, rfl⟩, _, rfl, .inl rfl⟩

/-- The board refuses a confidence just if no params with it are read. -/
theorem conf_refused_iff (b : Board) (account : String) (publisher : Option String)
    (quote : Quote) :
    (∃ reason, b.submit account publisher quote = .error (.invalidParams reason)) ↔
      ∀ params, param? params "conf" = some (.int quote.conf) →
        UpdateParams.read params = .error .invalidParams := by
  rw [Board.exists_invalidParams_iff]
  constructor
  · intro hconf params hparams
    refine read_eq_error_iff.2 ⟨rfl, ?_⟩
    rintro ⟨-, -, ⟨conf, hle, hmember⟩, -⟩
    rw [hparams, Option.some.injEq, Value.int.injEq] at hmember
    omega
  · intro hnone
    by_cases hconf : Board.maxConf < quote.conf
    · exact hconf
    · have hread := hnone (withConf quote.conf) rfl
      rw [read_withConf (Nat.le_of_not_lt hconf)] at hread
      cases hread

/-! ## Top theorem -/

/-- **Which params of an update are read.** They are an object with a text for an account, integers
of 64 bits for price and confidence, the confidence in the range of prices, and for a status its
name, or an object with that name as its only member and the value null. What is read are these
four values, whatever other members there are. All else is invalid params. The board never refuses
a confidence that is read, and it refuses one just if that is read from no params. -/
theorem quote_read (params : Option Value) :
    (∀ account price conf status,
      UpdateParams.read params = .ok ⟨account, price, conf, status⟩ ↔
        ∃ members, params = some (.object members) ∧
          Keyed.get? "account" members = some (.string account) ∧
          (Keyed.get? "price" members = some (.int price) ∧
            -9223372036854775808 ≤ price ∧ price ≤ 9223372036854775807) ∧
          (Keyed.get? "conf" members = some (.int conf) ∧ conf ≤ 9223372036854775807) ∧
          (Keyed.get? "status" members = some (.string status.name) ∨
            Keyed.get? "status" members = some (.object [(status.name, .null)]))) ∧
    (∀ e, UpdateParams.read params = .error e ↔
      e = .invalidParams ∧ ∀ read, UpdateParams.read params ≠ .ok read) ∧
    (∀ read, UpdateParams.read params = .ok read → ∀ (b : Board) account publisher reason,
      b.submit account publisher read.quote ≠ .error (.invalidParams reason)) ∧
    ∀ (b : Board) account publisher (quote : Quote),
      (∃ reason, b.submit account publisher quote = .error (.invalidParams reason)) ↔
        ∀ params', param? params' "conf" = some (.int quote.conf) →
          UpdateParams.read params' = .error .invalidParams := by
  refine ⟨fun account price conf status => ?_, fun e => ?_,
    fun read hread b account publisher reason hrefused => ?_, conf_refused_iff⟩
  · rw [read_eq_ok_iff]
    constructor
    · rintro ⟨haccount, ⟨hpriceIn, hprice⟩, ⟨hconfLe, hconf⟩, value, hstatus, hnamed⟩
      obtain ⟨members, rfl, -⟩ := param?_eq_some_iff.1 haccount
      refine ⟨members, rfl, haccount, ⟨hprice, hpriceIn⟩, ⟨hconf, hconfLe⟩, ?_⟩
      rcases hnamed with rfl | rfl
      · exact .inl hstatus
      · exact .inr hstatus
    · rintro ⟨members, rfl, haccount, ⟨hprice, hpriceIn⟩, ⟨hconf, hconfLe⟩, hstatus | hstatus⟩
      · exact ⟨haccount, ⟨hpriceIn, hprice⟩, ⟨hconfLe, hconf⟩, _, hstatus, .inl rfl⟩
      · exact ⟨haccount, ⟨hpriceIn, hprice⟩, ⟨hconfLe, hconf⟩, _, hstatus, .inr rfl⟩
  · rw [read_eq_error_iff, hasQuote_iff, not_exists]
  · obtain ⟨-, -, ⟨-, hconf⟩, -⟩ := read_eq_ok_iff.1 hread
    have hinvalid := (conf_refused_iff ..).1 ⟨reason, hrefused⟩ params hconf
    rw [hread] at hinvalid
    cases hinvalid

/-- Params with the greatest confidence, a status in its longer form and a member that is none of
theirs are read; with a confidence greater by one they are not. -/
theorem quote_read_greatest :
    let params (conf : Int) : Option Value :=
      some (.object [("account", .string "px"), ("conf", .int conf),
        ("price", .int (-9223372036854775808)), ("price_type", .double (.zero true)),
        ("status", .object [("halted", .null)])])
    UpdateParams.read (params 9223372036854775807) =
        .ok ⟨"px", -9223372036854775808, 9223372036854775807, .halted⟩ ∧
      UpdateParams.read (params 9223372036854775808) = .error .invalidParams ∧
      ∀ (b : Board) account publisher reason,
        b.submit account publisher ⟨-9223372036854775808, 9223372036854775807, .halted⟩ ≠
          .error (.invalidParams reason) := by
  intro params
  obtain ⟨hok, -, hagrees, hrefused⟩ := quote_read (params 9223372036854775807)
  have hread : UpdateParams.read (params 9223372036854775807) =
      .ok ⟨"px", -9223372036854775808, 9223372036854775807, .halted⟩ := by
    refine (hok _ _ _ _).2 ⟨_, rfl, rfl, ⟨rfl, by decide, by decide⟩, ⟨rfl, Nat.le_refl _⟩, .inr rfl⟩
  have hgreat := (Board.exists_invalidParams_iff ⟨{}, []⟩ "px" none
    ⟨0, 9223372036854775808, .halted⟩).2 (by decide)
  have hstands := hagrees _ hread
  exact ⟨hread, (hrefused _ _ _ _).1 hgreat _ rfl, hstands⟩

end UpdateParams

end PriceFeed
