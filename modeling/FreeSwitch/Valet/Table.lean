/-
**The table of a parking lot.**

What the operations on the tokens and on the table keep, and what a sweep of `check_timeouts` leaves.
-/

import FreeSwitch.Valet.Runs

namespace FreeSwitch

open CString Function List Option ValetWorld

/-- Every token in the table is alive, under its own extension. -/
structure ValetWorld.Table (w : ValetWorld) : Prop where
  keys : (w.hash.map Prod.fst).Nodup
  entries : ∀ ext a, (ext, a) ∈ w.hash → ∃ t, w.heap a = some t ∧ t.ext = ext
  fresh : ∀ a, w.next ≤ a → w.heap a = none

section Table

variable {w w' : ValetWorld} {a b : Nat} {ext : Text} {t : ValetToken}

theorem mem_of_find (found : w.find ext = some a) : (ext, a) ∈ w.hash := by
  obtain ⟨front, back, whole, -⟩ := lookup_eq_some_iff.mp found
  rw [whole]
  simp

theorem find_eq_none_iff : w.find ext = none ↔ ∀ a, (ext, a) ∉ w.hash := by
  rw [find, lookup_eq_none_iff]
  constructor
  · intro all a member
    simpa using all _ member
  · rintro none ⟨key, a⟩ member
    have other : ext ≠ key := by
      rintro rfl
      exact none a member
    simpa using other

variable (table : w.Table)

include table

theorem ValetWorld.Table.unique (first : (ext, a) ∈ w.hash) (second : (ext, b) ∈ w.hash) : a = b :=
  congrArg Prod.snd (inj_on_of_nodup_map table.keys first second rfl)

theorem ValetWorld.Table.allLive : w.allLive = true := by
  refine all_eq_true.mpr fun entry member => ?_
  obtain ⟨t, live, -⟩ := table.entries entry.1 entry.2 member
  rw [live]
  rfl

theorem ValetWorld.Table.same (hash : w'.hash = w.hash) (heap : w'.heap = w.heap)
    (next : w'.next = w.next) : w'.Table := by
  refine ⟨hash ▸ table.keys, fun ext a member => ?_, fun a beyond => ?_⟩
  · rw [heap]
    exact table.entries ext a (hash ▸ member)
  · rw [heap]
    exact table.fresh a (next ▸ beyond)

theorem ValetWorld.Table.write {t' : ValetToken} (live : w.heap a = some t) (ext : t'.ext = t.ext) :
    (w.write a t').Table := by
  refine ⟨table.keys, fun key b member => ?_, fun b beyond => ?_⟩
  · obtain ⟨old, isOld, isKey⟩ := table.entries key b member
    by_cases same : b = a
    · subst same
      obtain rfl := some.inj (live.symm.trans isOld)
      exact ⟨t', update_self .., ext.trans isKey⟩
    · exact ⟨old, (update_of_ne same ..).trans isOld, isKey⟩
  · have other : b ≠ a := by
      rintro rfl
      rw [table.fresh b beyond] at live
      cases live
    exact (update_of_ne other ..).trans (table.fresh b beyond)

theorem ValetWorld.Table.alloc (new : ValetToken) : (w.alloc new).Table := by
  refine ⟨table.keys, fun key b member => ?_, fun b beyond => ?_⟩
  · obtain ⟨old, isOld, isKey⟩ := table.entries key b member
    have other : b ≠ w.next := by
      rintro rfl
      rw [table.fresh w.next le_rfl] at isOld
      cases isOld
    exact ⟨old, (update_of_ne other ..).trans isOld, isKey⟩
  · change w.next + 1 ≤ b at beyond
    exact (update_of_ne (by omega) ..).trans (table.fresh b (by omega))

theorem ValetWorld.Table.delete (ext : Text) : (w.delete ext).Table :=
  ⟨table.keys.sublist (filter_sublist.map Prod.fst),
    fun key b member => table.entries key b (mem_of_mem_filter member), table.fresh⟩

omit table in
theorem insert_hash (absent : w.find ext = none) (a : Nat) :
    (w.insert ext a).hash = (ext, a) :: w.hash := by
  have all : w.hash.filter (·.1 ≠ ext) = w.hash := by
    refine filter_eq_self.mpr fun entry member => ?_
    have other : entry.1 ≠ ext := by
      rintro rfl
      exact find_eq_none_iff.mp absent entry.2 member
    simpa using other
  rw [ValetWorld.insert, all]

theorem ValetWorld.Table.insert (absent : w.find ext = none) (live : w.heap a = some t)
    (isExt : t.ext = ext) : (w.insert ext a).Table := by
  have hash := insert_hash absent a
  refine ⟨?_, fun key b member => ?_, table.fresh⟩
  · rw [hash, map_cons, nodup_cons]
    refine ⟨fun member => ?_, table.keys⟩
    obtain ⟨entry, inside, rfl⟩ := mem_map.mp member
    exact find_eq_none_iff.mp absent entry.2 inside
  · rw [hash] at member
    rcases mem_cons.mp member with same | old
    · obtain ⟨rfl, rfl⟩ := Prod.mk.inj same
      exact ⟨t, live, isExt⟩
    · exact table.entries key b old

/-- **A sweep** takes the tokens that have expired out of the table, and frees each once. -/
theorem ValetWorld.Table.sweep (now : Int) : w.checkTimeouts now =
      { w with
        hash := w.hash.filter fun entry => !(w.heap entry.2).any (·.expired now)
        heap := fun a => if a ∈ (w.gone now).map Prod.snd then none else w.heap a } ∧
    (w.checkTimeouts now).Table := by
  have once : ((w.gone now).map Prod.snd).Nodup := by
    refine List.Nodup.map_on (fun one isOne other isOther same => ?_)
      ((List.Nodup.of_map _ table.keys).filter _)
    obtain ⟨t, live, ext⟩ := table.entries one.1 one.2 (mem_of_mem_filter isOne)
    obtain ⟨t', live', ext'⟩ := table.entries other.1 other.2 (mem_of_mem_filter isOther)
    rw [same, live'] at live
    obtain rfl := some.inj live
    exact Prod.ext (ext.symm.trans ext') same
  rw [checkTimeouts, if_pos ⟨table.allLive, once⟩]
  refine ⟨rfl, table.keys.sublist (filter_sublist.map Prod.fst), fun ext a member => ?_,
    fun a beyond => ?_⟩
  · obtain ⟨inside, kept⟩ := mem_filter.mp member
    obtain ⟨t, live, isExt⟩ := table.entries ext a inside
    refine ⟨t, (if_neg fun isGone => ?_).trans live, isExt⟩
    obtain ⟨⟨key, b⟩, gone, rfl⟩ := mem_map.mp isGone
    rw [(mem_filter.mp gone).2] at kept
    cases kept
  · dsimp only
    split
    · rfl
    · exact table.fresh a beyond

end Table

end FreeSwitch
