import Mathlib.Algebra.BigOperators.Group.Finset.Piecewise
import ProgressiveHtml.Proofs.Rendering.Ledger

namespace ProgressiveHtml

/-!
# Renderings — filling in what was handed in

When all late fragments are complete, their contents are filled in, from the last slot to the first:
what a fragment handed in has later slots than the fragment itself.  What is cut out of the body and
of all contents together is then one piece for each slot.

* `Ledger.Complete`, `Ledger.Fills` — complete fragments, and what is filled in for them;
* `Ledger.exists_filling` — all fragments can be filled in;
* `Ledger.bind_cuts` — the fragments of all hosts together;
* `Ledger.patches_of_filling` — what is cut out in all.
-/

namespace Ledger

variable {entries : List Entry} {h : List Happening} {next : Nat} {texts : Nat → String}
  {fill : Nat → List Part}

/-- All fragments are complete with the given texts. -/
def Complete (entries : List Entry) (texts : Nat → String) : Prop :=
  ∀ entry ∈ entries,
    entry.cut.content.Shows ⟨texts entry.cut.slot, handedIn entries (some entry.cut.slot)⟩

/-- What is filled in for a fragment are parts of what it shows, with its text standing in place. -/
structure Fills (entries : List Entry) (texts : Nat → String) (fill : Nat → List Part)
    (slot : Nat) (content : Deferred) : Prop where
  cutInto : content.CutInto (fill slot)
  filled : Outcome.FilledBy fill ⟨texts slot, handedIn entries (some slot)⟩ (fill slot)

/-- Filling in something for a slot does not concern the fragments with this slot or a later one, which
    have handed in still later ones. -/
theorem filledBy_update (agrees : Agrees entries h next) {slot host : Nat} (notLater : slot ≤ host)
    {text : String} {parts : List Part}
    (filled : Outcome.FilledBy fill ⟨text, handedIn entries (some host)⟩ parts)
    (more : List Part) :
    Outcome.FilledBy (Function.update fill slot more) ⟨text, handedIn entries (some host)⟩
      parts := by
  refine filled.congr fun cut handed => ?_
  have later : host < cut.slot := agrees.earlier _ (mem_handedIn.1 handed) _ rfl
  exact (Function.update_of_ne (notLater.trans_lt later).ne' _ _).symm

/-- If the fragments after a slot are filled in, so can be the one with this slot. -/
theorem fills_update (agrees : Agrees entries h next) (complete : Complete entries texts)
    {slot : Nat}
    (later : ∀ entry ∈ entries, slot < entry.cut.slot →
      Fills entries texts fill entry.cut.slot entry.cut.content) :
    ∃ fill', ∀ entry ∈ entries, slot ≤ entry.cut.slot →
      Fills entries texts fill' entry.cut.slot entry.cut.content := by
  by_cases given : ∃ entry ∈ entries, entry.cut.slot = slot
  · obtain ⟨entry, member, rfl⟩ := given
    -- What the fragment hands in has later slots, which are filled in already.
    have solves : Solves fill (handedIn entries (some entry.cut.slot)) := by
      intro cut handed
      have isEntry := mem_handedIn.1 handed
      exact (later _ isEntry (agrees.earlier _ isEntry _ rfl)).cutInto
    obtain ⟨parts, cutInto, filled⟩ := (complete entry member).cutInto solves
    refine ⟨Function.update fill entry.cut.slot parts, fun other isOther notEarlier => ?_⟩
    obtain same | isLater := notEarlier.eq_or_lt
    · have twice := getElem?_of_numbered agrees.numbered member
      rw [same, getElem?_of_numbered agrees.numbered isOther] at twice
      obtain rfl := Option.some.inj twice
      constructor
      · rwa [Function.update_self]
      · rw [Function.update_self]
        exact filledBy_update agrees le_rfl filled parts
    · obtain ⟨cutInto, filled⟩ := later other isOther isLater
      constructor
      · rwa [Function.update_of_ne isLater.ne']
      · rw [Function.update_of_ne isLater.ne']
        exact filledBy_update agrees notEarlier filled parts
  · refine ⟨fill, fun entry member notEarlier => later entry member (notEarlier.lt_of_ne ?_)⟩
    exact fun same => given ⟨entry, member, same.symm⟩

/-- All fragments can be filled in. -/
theorem exists_filling (agrees : Agrees entries h next) (complete : Complete entries texts) :
    ∃ fill, ∀ entry ∈ entries, Fills entries texts fill entry.cut.slot entry.cut.content := by
  -- By induction on the number of slots that are filled in, the last one first.
  have fromLast (count : Nat) : ∃ fill, ∀ entry ∈ entries, next - count ≤ entry.cut.slot →
      Fills entries texts fill entry.cut.slot entry.cut.content := by
    induction count with
    | zero =>
      refine ⟨fun _ => [], fun entry member late => ?_⟩
      exact absurd (agrees.slot_lt member) (Nat.not_lt.2 late)
    | succ count ih =>
      obtain ⟨fill, fills⟩ := ih
      exact fills_update agrees complete fun entry member later => fills entry member (by omega)
  obtain ⟨fill, fills⟩ := fromLast next
  exact ⟨fill, fun entry member => fills entry member (by omega)⟩

/-! ### What is cut out in all -/

theorem handedIn_cons (entry : Entry) (host : Option Nat) :
    handedIn (entry :: entries) host =
      (if entry.host = host then {entry.cut} else 0) + handedIn entries host := by
  by_cases mine : entry.host = host
  · simp [handedIn, mine, Multiset.singleton_add]
  · simp [handedIn, mine]

/-- The fragments of all hosts together are all fragments. -/
theorem bind_cuts {α : Type} {count : Nat} (f : Cut → Multiset α)
    (known : ∀ entry ∈ entries, ∀ slot, entry.host = some slot → slot < count) :
    Multiset.bind (entries.map (·.cut) : List Cut) f =
      (handedIn entries none).bind f +
        ∑ slot ∈ Finset.range count, (handedIn entries (some slot)).bind f := by
  induction entries with
  | nil => simp [handedIn]
  | cons entry rest ih =>
    have ih := ih fun other member => known other (List.mem_cons_of_mem _ member)
    have here (host : Option Nat) : (handedIn (entry :: rest) host).bind f =
        (if entry.host = host then f entry.cut else 0) + (handedIn rest host).bind f := by
      rw [handedIn_cons, Multiset.add_bind]
      split <;> simp
    -- Exactly one host has the entry.
    have once : (if entry.host = none then f entry.cut else 0) +
        (∑ slot ∈ Finset.range count, if entry.host = some slot then f entry.cut else 0) =
          f entry.cut := by
      cases isHost : entry.host with
      | none => simp
      | some slot => simp [known entry List.mem_cons_self slot isHost]
    rw [List.map_cons, ← Multiset.cons_coe, Multiset.cons_bind, ih, here]
    simp only [here, Finset.sum_add_distrib]
    rw [add_add_add_comm, once]

/-- What is cut out of the body and of all contents is one piece for each slot: the text of its
    fragment. -/
theorem patches_of_filling (agrees : Agrees entries h next)
    (fills : ∀ entry ∈ entries, Fills entries texts fill entry.cut.slot entry.cut.content)
    {text : String} {parts : List Part}
    (body : Outcome.FilledBy fill ⟨text, handedIn entries none⟩ parts) :
    (Part.patchesAll parts).Perm ((List.range next).map fun slot => (slot, texts slot)) := by
  let later (slot : Nat) := (handedIn entries (some slot)).bind (Cut.patches fill)
  have all : Multiset.bind (entries.map (·.cut) : List Cut) (Cut.patches fill) =
      (handedIn entries none).bind (Cut.patches fill) + ∑ slot ∈ Finset.range next, later slot :=
    bind_cuts _ fun entry member slot isHost =>
      (agrees.earlier entry member slot isHost).trans (agrees.slot_lt member)
  -- Each fragment is one piece, and what it handed in is cut out of its content.
  have one : ∀ cut ∈ (entries.map (·.cut) : List Cut),
      Cut.patches fill cut = (cut.slot, texts cut.slot) ::ₘ later cut.slot := by
    intro cut member
    obtain ⟨entry, isEntry, rfl⟩ := List.mem_map.1 member
    obtain ⟨-, text, patches⟩ := fills entry isEntry
    rw [Cut.patches, text, patches]
  have slots : Multiset.map Cut.slot (entries.map (·.cut) : List Cut) =
      ((List.range next : List Nat) : Multiset Nat) := by
    rw [Multiset.map_coe, List.map_map, ← agrees.numbered]
    rfl
  have pieces : Multiset.bind (entries.map (·.cut) : List Cut) (Cut.patches fill) =
      ((List.range next).map (fun slot => (slot, texts slot)) : List _) +
        ∑ slot ∈ Finset.range next, later slot := by
    rw [Multiset.bind_congr one, Multiset.bind_cons]
    generalize ((entries.map (·.cut) : List Cut) : Multiset Cut) = cuts at slots
    rw [← Multiset.bind_map cuts later Cut.slot, slots, ← Multiset.map_coe, ← slots,
      Multiset.map_map, slots]
    rfl
  rw [← Multiset.coe_eq_coe, body.patches]
  exact add_right_cancel (all.symm.trans pieces)

end Ledger

end ProgressiveHtml
