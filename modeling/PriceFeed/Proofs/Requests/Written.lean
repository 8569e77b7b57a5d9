import PriceFeed.Proofs.Json.Written
import PriceFeed.Proofs.Keys
import PriceFeed.Rpc.Request

/-!
# Requests as they are written

A request can be written with its members in any order and with other members beside them. Its text
is read as a call of just that request, by itself and as an item of a batch; absent params stay
absent, and params that are null stay null.

    an object of a request's members has that request as its call       (WrittenAs.ofValue)

## Top theorem

    reading gives back the requests that were written                   (decode_render)
-/

namespace PriceFeed

open Json

namespace Request

/-- The members that make a request. -/
def members (r : Request) : List (String × Value) :=
  ("id", r.id) :: ("method", .string r.method) :: r.params.toList.map (Prod.mk "params")

theorem name_mem {r : Request} {m : String × Value} (hm : m ∈ r.members) :
    m.1 ∈ ["id", "method", "params"] := by
  simp only [members, List.mem_cons, List.mem_map, Option.mem_toList] at hm
  rcases hm with rfl | rfl | ⟨v, -, rfl⟩ <;> simp

theorem nodup_names (r : Request) : (r.members.map (·.1)).Nodup := by
  unfold members
  cases r.params <;> simp

/-- A request whose id can be answered under and whose values are no doubles. -/
structure Exact (r : Request) : Prop where
  scalar : r.id.isScalar = true
  id : r.id.Exact
  params : ∀ v ∈ r.params, v.Exact

/-- The members of an object are those of a request, in any order and among others. -/
structure WrittenAs (r : Request) (members : List (String × Value)) : Prop where
  exact : r.Exact
  others : ∃ others, members.Perm (r.members ++ others) ∧
    ∀ m ∈ others, m.1 ∉ ["id", "method", "params"] ∧ m.2.Exact

namespace WrittenAs

variable {r : Request} {members : List (String × Value)}

theorem exact_of_mem (h : r.WrittenAs members) : ∀ m ∈ members, m.2.Exact := by
  obtain ⟨others, hperm, hothers⟩ := h.others
  intro m hm
  have hm := hperm.mem_iff.1 hm
  simp only [Request.members, List.cons_append, List.mem_cons, List.mem_append, List.mem_map,
    Option.mem_toList] at hm
  rcases hm with rfl | rfl | ⟨v, hv, rfl⟩ | hm
  · exact h.exact.id
  · exact .string r.method
  · exact h.exact.params v hv
  · exact (hothers m hm).2

/-- A member of the request is the one that is read by its name. -/
theorem get?_ofList (h : r.WrittenAs members) {m : String × Value} (hm : m ∈ r.members) :
    Keyed.get? m.1 (Keyed.ofList members) = some m.2 := by
  obtain ⟨others, hperm, hothers⟩ := h.others
  have hmem := hperm.mem_iff.2 (List.mem_append_left others hm)
  refine Keyed.get?_ofList_eq_some hmem fun e he hname => ?_
  rcases List.mem_append.1 (hperm.mem_iff.1 he) with he | he
  · rw [List.inj_on_of_nodup_map r.nodup_names he hm hname]
  · exact absurd (hname ▸ name_mem hm) (hothers e he).1

/-- Absent params are read as absent. -/
theorem get?_params (h : r.WrittenAs members) :
    Keyed.get? "params" (Keyed.ofList members) = r.params := by
  cases hp : r.params with
  | some v =>
    have hmem : ("params", v) ∈ r.members := by simp [Request.members, hp]
    exact h.get?_ofList hmem
  | none =>
    obtain ⟨others, hperm, hothers⟩ := h.others
    refine Keyed.get?_ofList_eq_none fun m hm hname => ?_
    rcases List.mem_append.1 (hperm.mem_iff.1 hm) with hm | hm
    · simp only [Request.members, hp, Option.toList_none, List.map_nil, List.mem_cons,
        List.not_mem_nil, or_false] at hm
      rcases hm with rfl | rfl <;> simp at hname
    · exact (hothers m hm).1 (by simp [hname])

theorem value?_document (h : r.WrittenAs members) :
    (Value.object members).document.value? = some (.object (Keyed.ofList members)) := by
  rw [Value.document, Document.value?,
    memberValues?_memberDocuments fun m hm => (h.exact_of_mem m hm).value?_document,
    Option.map_some]

theorem plain (h : r.WrittenAs members) : (Value.object members).Plain :=
  .object fun m hm => (h.exact_of_mem m hm).plain

theorem ofValue (h : r.WrittenAs members) :
    Envelope.ofValue (.object (Keyed.ofList members)) = .call r := by
  have hid : Keyed.get? "id" (Keyed.ofList members) = some r.id :=
    h.get?_ofList List.mem_cons_self
  have hmethod : Keyed.get? "method" (Keyed.ofList members) = some (.string r.method) :=
    h.get?_ofList (List.mem_cons_of_mem _ List.mem_cons_self)
  have hscalar : requestId? (Keyed.ofList members) = some r.id := by
    rw [requestId?, hid, Option.filter_some_pos h.exact.scalar]
  rw [Envelope.ofValue, hscalar]
  simp only [hmethod, h.get?_params]

end WrittenAs

end Request

/-- What is written for a value is decoded by its documents, if it does not nest too deep. -/
theorem Payload.decode_render_of_plain {v w : Value} (hv : v.Plain)
    (hdepth : v.document.depth ≤ maxDepth) (hw : v.document.value? = some w) :
    decode v.render = ofValue w := by
  rw [decode, hv.parse?_of_value? hdepth hw]

/-- The objects of several requests have these as their calls. -/
theorem Request.calls_eq {rs : List Request} {forms : List (List (String × Value))}
    (hforms : List.Forall₂ Request.WrittenAs rs forms) :
    (∀ members ∈ forms, ∃ r, Request.WrittenAs r members) ∧
      forms.map (fun members => Envelope.ofValue (.object (Keyed.ofList members))) =
        rs.map .call := by
  induction hforms with
  | nil => exact ⟨nofun, rfl⟩
  | cons hr _ ih =>
    refine ⟨List.forall_mem_cons.2 ⟨⟨_, hr⟩, ih.1⟩, ?_⟩
    rw [List.map_cons, List.map_cons, hr.ofValue, ih.2]

/-- **Reading gives back the requests that were written**, each by itself as well as all of them as
a batch, with their members in any order and among others. -/
theorem Payload.decode_render {rs : List Request} {forms : List (List (String × Value))}
    (hforms : List.Forall₂ Request.WrittenAs rs forms) (hne : rs ≠ []) :
    (∀ x ∈ rs.zip forms, (Value.object x.2).document.depth ≤ maxDepth →
      decode (Value.object x.2).render = .ok (.single (.call x.1))) ∧
    ((Value.array (forms.map .object)).document.depth ≤ maxDepth →
      decode (Value.array (forms.map .object)).render = .ok (.batch (rs.map .call))) := by
  refine ⟨fun x hx hdepth => ?_, fun hdepth => ?_⟩
  · have hx : x.1.WrittenAs x.2 := (List.forall₂_iff_zip.1 hforms).2 hx
    rw [decode_render_of_plain hx.plain hdepth hx.value?_document, ofValue, hx.ofValue]
  · obtain ⟨hwritten, hcalls⟩ := Request.calls_eq hforms
    have hplain : (Value.array (forms.map .object)).Plain := by
      refine .array fun v hv => ?_
      obtain ⟨members, hmem, rfl⟩ := List.mem_map.1 hv
      obtain ⟨r, hr⟩ := hwritten members hmem
      exact hr.plain
    let values := forms.map fun members => Value.object (Keyed.ofList members)
    have hitems : List.Forall₂ (fun d v => d.value? = some v)
        ((forms.map Value.object).map Value.document) values := by
      refine List.forall₂_map_left_iff.2 (List.forall₂_map_left_iff.2
        (List.forall₂_map_right_iff.2 (List.forall₂_same.2 fun members hmem => ?_)))
      obtain ⟨r, hr⟩ := hwritten members hmem
      exact hr.value?_document
    have hvalue : (Value.array (forms.map .object)).document.value? = some (.array values) := by
      rw [Value.document, Document.value?, itemDocuments_eq, itemValues?_eq_some hitems,
        Option.map_some]
    have hsome : values ≠ [] := by
      intro hnil
      rw [List.map_eq_nil_iff] at hnil
      rw [hnil, List.map_nil] at hcalls
      exact hne (List.map_eq_nil_iff.1 hcalls.symm)
    rw [decode_render_of_plain hplain hdepth hvalue, ofValue, ← hcalls, List.map_map]
    · rfl
    · exact hsome

/-- A call without params and one whose params are null. -/
def pairRequests : List Request :=
  [⟨.int 18446744073709551615, "a\"\n", none⟩, ⟨.null, "b", some .null⟩]

/-- The same calls with their members in other orders, and with one more. -/
def pairForms : List (List (String × Value)) :=
  [[("method", .string "a\"\n"), ("jsonrpc", .string "2.0"), ("id", .int 18446744073709551615)],
    [("params", .null), ("id", .null), ("method", .string "b")]]

theorem Payload.decode_render_pair :
    List.Forall₂ Request.WrittenAs pairRequests pairForms ∧
      (Value.array (pairForms.map .object)).document.depth ≤ maxDepth ∧
      decode (Value.array (pairForms.map .object)).render =
        .ok (.batch (pairRequests.map .call)) := by
  -- each form is its request's members turned round, with what else there is at its place
  have hfirst : pairForms[0].Perm (pairRequests[0].members ++ [("jsonrpc", .string "2.0")]) :=
    @List.perm_append_comm _ (pairForms[0].take 2) _
  have hsecond : pairForms[1].Perm (pairRequests[1].members ++ []) :=
    @List.perm_append_comm _ (pairForms[1].take 1) _
  have hforms : List.Forall₂ Request.WrittenAs pairRequests pairForms := by
    refine .cons ⟨⟨rfl, .int (.inr (by decide)), nofun⟩, _, hfirst, fun m hm => ?_⟩
      (.cons ⟨⟨rfl, .null, fun v hv => ?_⟩, [], hsecond, nofun⟩ .nil)
    · rw [List.mem_singleton.1 hm]
      exact ⟨by simp, .string _⟩
    · cases hv
      exact .null
  have hdepth : (Value.array (pairForms.map .object)).document.depth ≤ maxDepth := by decide
  exact ⟨hforms, hdepth, (decode_render hforms (by simp [pairRequests])).2 hdepth⟩

end PriceFeed
