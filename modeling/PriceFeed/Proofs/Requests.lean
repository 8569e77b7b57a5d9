import PriceFeed.Rpc.Request

/-!
# What requests say

An item of a payload is a request if it is an object with a scalar id and a string for its method.
What it says is in its members and in those of its params.

    Envelope.ofValue v is a call ↔ v.IsRequest                              (ofValue_cases)
    the params name an account                                (SubscribeParams.read_eq_ok_iff)
    the params name an account and hold a quote                  (UpdateParams.read_eq_ok_iff)
-/

namespace PriceFeed

open Json

/-! ## Requests -/

namespace Json.Value

/-- An object with a scalar id and a string for its method. -/
def IsRequest (v : Value) : Prop :=
  (∃ id, v.get? "id" = some id ∧ id.isScalar = true) ∧
    ∃ name, v.get? "method" = some (.string name)

/-- The method of the object has the name of a served one. -/
def Asks (v : Value) (m : Method) : Prop := v.get? "method" = some (.string m.name)

end Json.Value

/-- A request is taken as a call, and everything else as invalid. -/
theorem Envelope.ofValue_cases (v : Value) :
    (¬ v.IsRequest ∧ ∃ id, ofValue v = .invalid id) ∨
      v.IsRequest ∧ ∃ id name, v.get? "method" = some (.string name) ∧
        ofValue v = .call ⟨id, name, v.get? "params"⟩ := by
  cases v with
  | object members =>
    simp only [ofValue, requestId?, Value.IsRequest, Value.get?]
    cases hid : (Keyed.get? "id" members).filter Value.isScalar with
    | none =>
      refine .inl ⟨?_, .null, rfl⟩
      rintro ⟨⟨id, hget, hscalar⟩, -⟩
      rw [hget, Option.filter_some_pos hscalar] at hid
      cases hid
    | some id =>
      have hid' := Option.filter_eq_some_iff.1 hid
      cases hmethod : Keyed.get? "method" members with
      | none => exact .inl ⟨by simp, id, rfl⟩
      | some value =>
        cases value with
        | string name => exact .inr ⟨⟨⟨id, hid'⟩, name, rfl⟩, id, name, rfl, rfl⟩
        | _ => exact .inl ⟨by simp, id, rfl⟩
  | _ => exact .inl ⟨by simp [Value.IsRequest, Value.get?], .null, rfl⟩

theorem Method.ofName?_eq_some_iff {name : String} {m : Method} :
    ofName? name = some m ↔ name = m.name := by
  constructor
  · intro h
    have hname := List.find?_some h
    exact (of_decide_eq_true hname).symm
  · rintro rfl
    cases m <;> decide

theorem Method.name_inj {m m' : Method} : m.name = m'.name ↔ m = m' := by
  constructor
  · intro h
    have hm : ofName? m.name = some m := ofName?_eq_some_iff.2 rfl
    have hm' : ofName? m.name = some m' := ofName?_eq_some_iff.2 h
    exact Option.some.inj (hm.symm.trans hm')
  · exact congrArg name

/-- An object asks for at most one method. -/
theorem Json.Value.Asks.iff {v : Value} {m m' : Method} (h : v.Asks m) : v.Asks m' ↔ m' = m := by
  rw [Asks, h, Option.some.injEq, string.injEq, Method.name_inj]
  exact eq_comm

/-! ## Params -/

/-- A member of the params. -/
def param? (params : Option Value) (name : String) : Option Value := params.bind (·.get? name)

/-- The params are an object with a string for an account. -/
def HasAccount (params : Option Value) : Prop :=
  ∃ reference, param? params "account" = some (.string reference)

/-- The value is the name of a status, or an object with that name as its only member and the value
null. -/
def Status.IsNamedBy (status : Status) (v : Value) : Prop :=
  v = .string status.name ∨ v = .object [(status.name, .null)]

/-- The params are an object with a string for an account, a price and a confidence in their ranges,
and a status. -/
def HasQuote (params : Option Value) : Prop :=
  HasAccount params ∧
    (∃ price ∈ IntRange.signed64, param? params "price" = some (.int price)) ∧
    (∃ conf : Nat, conf ≤ Board.maxConf ∧ param? params "conf" = some (.int conf)) ∧
    ∃ status : Status, ∃ v, param? params "status" = some v ∧ status.IsNamedBy v

theorem Status.ofValue?_eq_some_iff {v : Value} {status : Status} :
    ofValue? v = some status ↔ status.IsNamedBy v := by
  unfold IsNamedBy
  constructor
  · intro h
    unfold ofValue? at h
    split at h
    · exact .inl (by rw [ofName?_eq_some_iff.1 h])
    · exact .inr (by rw [ofName?_eq_some_iff.1 h])
    · cases h
  · rintro (rfl | rfl) <;> exact ofName?_eq_some_iff.2 rfl

theorem string?_eq_some_iff {v : Value} {s : String} : v.string? = some s ↔ v = .string s := by
  cases v <;> simp [Value.string?]

theorem intIn?_eq_some_iff {range : IntRange} {v : Value} {n : Int} :
    v.intIn? range = some n ↔ v = .int n ∧ n ∈ range := by
  cases v with
  | int k =>
    simp only [Value.intIn?, Value.int.injEq]
    constructor
    · intro h
      split at h
      · next hk => cases h; exact ⟨rfl, hk⟩
      · cases h
    · rintro ⟨rfl, hk⟩
      rw [if_pos hk]
  | _ => simp [Value.intIn?]

section Read

variable {α : Type} {read : List (String × Value) → Option α} {params : Option Value}

theorem readParams_eq_ok_iff {a : α} :
    readParams read params = .ok a ↔
      ∃ members, params = some (.object members) ∧ read members = some a := by
  unfold readParams
  constructor
  · intro h
    split at h
    · next members =>
      split at h
      · next b hb => cases h; exact ⟨members, rfl, hb⟩
      · cases h
    · cases h
  · rintro ⟨members, rfl, h⟩
    simp only [h]

/-- Params that cannot be read are invalid params. -/
theorem readParams_eq_error {e : RpcError} (h : readParams read params = .error e) :
    e = .invalidParams := by
  unfold readParams at h
  split at h
  · split at h
    · cases h
    · cases h; rfl
  · cases h; rfl

/-- Only objects have members. -/
theorem param?_eq_some_iff {name : String} {v : Value} :
    param? params name = some v ↔
      ∃ members, params = some (.object members) ∧ Keyed.get? name members = some v := by
  unfold param?
  constructor
  · intro h
    obtain ⟨value, rfl, hget⟩ := Option.bind_eq_some_iff.1 h
    cases value with
    | object members => exact ⟨members, rfl, hget⟩
    | _ => cases hget
  · rintro ⟨members, rfl, h⟩
    exact h

end Read

theorem SubscribeParams.read_eq_ok_iff {params : Option Value} {read : SubscribeParams} :
    SubscribeParams.read params = .ok read ↔
      param? params "account" = some (.string read.account) := by
  rw [SubscribeParams.read, readParams_eq_ok_iff, param?_eq_some_iff]
  constructor
  · rintro ⟨members, rfl, h⟩
    simp only [ofMembers?, Option.bind_eq_bind, Option.bind_eq_some_iff] at h
    obtain ⟨value, hvalue, account, hstring, hread⟩ := h
    cases hread
    exact ⟨members, rfl, string?_eq_some_iff.1 hstring ▸ hvalue⟩
  · rintro ⟨members, rfl, h⟩
    exact ⟨members, rfl, by simp [ofMembers?, h, Value.string?]⟩

theorem UpdateParams.read_eq_ok_iff {params : Option Value} {read : UpdateParams} :
    UpdateParams.read params = .ok read ↔
      param? params "account" = some (.string read.account) ∧
        (read.quote.price ∈ IntRange.signed64 ∧
          param? params "price" = some (.int read.quote.price)) ∧
        (read.quote.conf ≤ Board.maxConf ∧
          param? params "conf" = some (.int read.quote.conf)) ∧
        ∃ v, param? params "status" = some v ∧ read.quote.status.IsNamedBy v := by
  rw [UpdateParams.read, readParams_eq_ok_iff]
  constructor
  · rintro ⟨members, rfl, h⟩
    simp only [ofMembers?, Option.bind_eq_bind, Option.bind_eq_some_iff] at h
    obtain ⟨accountValue, haccount, account, hstring, priceValue, hprice, price, hpriceRead,
      confValue, hconf, conf, hconfRead, statusValue, hstatus, status, hnamed, hread⟩ := h
    obtain rfl := string?_eq_some_iff.1 hstring
    obtain ⟨rfl, hpriceIn⟩ := intIn?_eq_some_iff.1 hpriceRead
    obtain ⟨rfl, hconfIn⟩ := intIn?_eq_some_iff.1 hconfRead
    obtain ⟨n, rfl⟩ := Int.eq_ofNat_of_zero_le hconfIn.1
    split at hread
    · next hconfLe =>
      cases hread
      exact ⟨haccount, ⟨hpriceIn, hprice⟩, ⟨Int.ofNat_le.1 hconfLe, hconf⟩, statusValue, hstatus,
        Status.ofValue?_eq_some_iff.1 hnamed⟩
    · cases hread
  · rintro ⟨haccount, ⟨hpriceIn, hprice⟩, ⟨hconfLe, hconf⟩, value, hstatus, hnamed⟩
    obtain ⟨members, rfl, haccount'⟩ := param?_eq_some_iff.1 haccount
    have hconfIn : (read.quote.conf : Int) ∈ IntRange.unsigned64 := by
      unfold Board.maxConf at hconfLe
      exact IntRange.mem_unsigned64.2 ⟨by omega, by omega⟩
    refine ⟨members, rfl, ?_⟩
    simp only [param?, Option.bind_some, Value.get?] at hprice hconf hstatus
    simp [ofMembers?, haccount', hprice, hconf, hstatus, string?_eq_some_iff.2 rfl,
      intIn?_eq_some_iff.2 ⟨rfl, hpriceIn⟩, intIn?_eq_some_iff.2 ⟨rfl, hconfIn⟩,
      Status.ofValue?_eq_some_iff.2 hnamed, hconfLe]

theorem hasAccount_iff {params : Option Value} :
    HasAccount params ↔ ∃ read, SubscribeParams.read params = .ok read := by
  constructor
  · rintro ⟨reference, h⟩
    exact ⟨⟨reference⟩, SubscribeParams.read_eq_ok_iff.2 h⟩
  · rintro ⟨read, h⟩
    exact ⟨read.account, SubscribeParams.read_eq_ok_iff.1 h⟩

theorem hasQuote_iff {params : Option Value} :
    HasQuote params ↔ ∃ read, UpdateParams.read params = .ok read := by
  constructor
  · rintro ⟨⟨account, haccount⟩, ⟨price, hpriceIn, hprice⟩, ⟨conf, hconfLe, hconf⟩, status, v,
      hstatus, hnamed⟩
    exact ⟨⟨account, price, conf, status⟩, UpdateParams.read_eq_ok_iff.2
      ⟨haccount, ⟨hpriceIn, hprice⟩, ⟨hconfLe, hconf⟩, v, hstatus, hnamed⟩⟩
  · rintro ⟨⟨account, price, conf, status⟩, h⟩
    obtain ⟨haccount, hprice, hconf, v, hstatus, hnamed⟩ := UpdateParams.read_eq_ok_iff.1 h
    exact ⟨⟨account, haccount⟩, ⟨price, hprice⟩, ⟨conf, hconf⟩, status, v, hstatus, hnamed⟩

end PriceFeed
