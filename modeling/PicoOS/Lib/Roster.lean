import Mathlib

/-!
# Rosters

A roster lists the first `cap` different keys of a stream of reports, in the order
in which they were first heard, each with an entry that is kept up to date. `R`
says what an entry has to do with the reports of its key.
-/
namespace Roster

variable {ρ κ ε : Type} [DecidableEq κ] {key : ρ → κ} {tag : ε → κ} {R : ε → List ρ → Prop} {cap : Nat}

/-- The keys in the order in which they were first heard. -/
def heard (key : ρ → κ) (rs : List ρ) : List κ := (rs.map key).eraseDups

theorem mem_heard {rs : List ρ} {k : κ} : k ∈ heard key rs ↔ ∃ r ∈ rs, key r = k := by
  rw [heard, List.mem_eraseDups, List.mem_map]

theorem heard_append_singleton (rs : List ρ) (r : ρ) :
    heard key (rs ++ [r]) =
      if key r ∈ heard key rs then heard key rs else heard key rs ++ [key r] := by
  simp only [heard, List.map_append, List.eraseDups_append, List.map_cons, List.map_nil,
    List.mem_eraseDups]
  split
  next old =>
    have gone : [key r].removeAll (rs.map key) = [] := by
      rw [List.removeAll, List.filter_cons_of_neg (by simpa using old), List.filter_nil]
    rw [gone, List.eraseDups_nil, List.append_nil]
  next new =>
    have stays : [key r].removeAll (rs.map key) = [key r] := by
      rw [List.removeAll, List.filter_cons_of_pos (by simpa using new), List.filter_nil]
    rw [stays, List.eraseDups_cons, List.filter_nil, List.eraseDups_nil]

theorem nodup_heard (rs : List ρ) : (heard key rs).Nodup := by
  induction rs using List.reverseRecOn with
  | nil => simp [heard]
  | append_singleton rs r ih =>
    rw [heard_append_singleton]
    split
    next => exact ih
    next new =>
      rw [← List.concat_eq_append]
      exact ih.concat new

/-- The entries of a roster after the reports `rs`. -/
structure Lists (key : ρ → κ) (tag : ε → κ) (R : ε → List ρ → Prop) (cap : Nat) (w : List ε)
    (rs : List ρ) : Prop where
  tags : w.map tag = (heard key rs).take cap
  entries : ∀ e ∈ w, R e (rs.filter fun r => key r = tag e)

namespace Lists

variable {w : List ε} {rs : List ρ} {r : ρ}

theorem nil : Lists key tag R cap [] [] := ⟨by simp [heard], fun e member => by cases member⟩

theorem length (h : Lists key tag R cap w rs) : w.length = min cap (heard key rs).length := by
  have length := congrArg List.length h.tags
  rwa [List.length_map, List.length_take] at length

theorem nodup (h : Lists key tag R cap w rs) : (w.map tag).Nodup := by
  rw [h.tags]
  exact (nodup_heard rs).sublist (List.take_sublist _ _)

/-- A listed key has been heard. -/
theorem heard_of_mem (h : Lists key tag R cap w rs) {e : ε} (member : e ∈ w) :
    tag e ∈ heard key rs := by
  have listed : tag e ∈ w.map tag := List.mem_map_of_mem member
  rw [h.tags] at listed
  exact List.mem_of_mem_take listed

/-- Other entries do not hear of the report. -/
theorem filter_other {e : ε} (other : key r ≠ tag e) :
    (rs ++ [r]).filter (fun r => key r = tag e) = rs.filter fun r => key r = tag e := by
  simp [other]

theorem filter_own {e : ε} (own : key r = tag e) :
    (rs ++ [r]).filter (fun r => key r = tag e) = (rs.filter fun r => key r = tag e) ++ [r] := by
  simp [own]

/-- The entry of the key is updated. -/
theorem update (h : Lists key tag R cap w rs) {k : Nat} {e e' : ε} (at_ : w[k]? = some e)
    (own : key r = tag e) (same : tag e' = tag e)
    (keeps : R e' ((rs.filter fun r => key r = tag e) ++ [r])) :
    Lists key tag R cap (w.set k e') (rs ++ [r]) where
  tags := by
    have member : e ∈ w := List.mem_of_getElem? at_
    rw [heard_append_singleton, if_pos (own ▸ h.heard_of_mem member), ← h.tags]
    refine List.ext_getElem? fun i => ?_
    rw [List.getElem?_map, List.getElem?_map, List.getElem?_set]
    split
    next here =>
      subst here
      have inside : k < w.length := (List.getElem?_eq_some_iff.mp at_).1
      rw [if_pos inside, at_, Option.map_some, Option.map_some, same]
    next => rfl
  entries x member := by
    rcases List.mem_or_eq_of_mem_set member with old | rfl
    · by_cases mine : key r = tag x
      · -- Tags differ, so this is the entry itself, which is not in the list any more.
        obtain ⟨j, there, place⟩ := List.getElem_of_mem member
        obtain ⟨i, inside, at_i⟩ := List.getElem_of_mem old
        obtain ⟨kIn, _⟩ := List.getElem?_eq_some_iff.mp at_
        rw [List.getElem_set] at place
        split at place
        next here =>
          subst place
          rw [same, filter_own own]
          exact keeps
        next apart =>
          have jIn : j < w.length := by simpa using there
          have tags : (w.map tag)[k]? = (w.map tag)[j]? := by
            rw [List.getElem?_map, List.getElem?_map, at_, List.getElem?_eq_getElem jIn, place]
            rw [Option.map_some, Option.map_some, ← own, mine]
          have eq := (List.getElem?_inj (by simpa using kIn) h.nodup).mp tags
          exact absurd eq apart
      · rw [filter_other mine]
        exact h.entries x old
    · rw [same, filter_own own]
      exact keeps

/-- The report tells nothing new of a listed key. -/
theorem skip (h : Lists key tag R cap w rs) {k : Nat} {e : ε} (at_ : w[k]? = some e)
    (own : key r = tag e) (keeps : R e ((rs.filter fun r => key r = tag e) ++ [r])) :
    Lists key tag R cap w (rs ++ [r]) := by
  have same : w.set k e = w := by
    obtain ⟨inside, here⟩ := List.getElem?_eq_some_iff.mp at_
    rw [← here, List.set_getElem_self]
  have updated := h.update at_ own rfl keeps
  rwa [same] at updated

/-- There is no room for a new key, or for one that came before without room. -/
theorem full (h : Lists key tag R cap w rs) (absent : ∀ e ∈ w, key r ≠ tag e)
    (room : cap ≤ w.length) : Lists key tag R cap w (rs ++ [r]) where
  tags := by
    have long : cap ≤ (heard key rs).length := by
      have := h.length
      omega
    rw [heard_append_singleton]
    split
    next => exact h.tags
    next => rw [List.take_append_of_le_length long, h.tags]
  entries e member := by
    rw [filter_other (absent e member)]
    exact h.entries e member

/-- Where there is room, a key that is not listed has not been heard. -/
theorem new_of_room (h : Lists key tag R cap w rs) (absent : ∀ e ∈ w, key r ≠ tag e)
    (room : w.length < cap) : key r ∉ heard key rs ∧ (heard key rs).length < cap := by
  have short : (heard key rs).length < cap := by
    have := h.length
    omega
  have all : w.map tag = heard key rs := by
    rw [h.tags, List.take_of_length_le (by omega)]
  refine ⟨fun old => ?_, short⟩
  rw [← all, List.mem_map] at old
  obtain ⟨x, member, same⟩ := old
  exact absent x member same.symm

/-- And a key that has not been heard is not listed. -/
theorem absent_of_new (h : Lists key tag R cap w rs) (new : key r ∉ heard key rs) :
    ∀ e ∈ w, key r ≠ tag e := by
  intro e member same
  exact new (same ▸ h.heard_of_mem member)

/-- A new key gets an entry. -/
theorem add (h : Lists key tag R cap w rs) (absent : ∀ e ∈ w, key r ≠ tag e) (room : w.length < cap)
    {e : ε} (own : key r = tag e) (keeps : R e [r]) : Lists key tag R cap (w ++ [e]) (rs ++ [r]) := by
  obtain ⟨new, short⟩ := h.new_of_room absent room
  have all : w.map tag = heard key rs := by
    rw [h.tags, List.take_of_length_le (by omega)]
  refine ⟨?_, fun x member => ?_⟩
  · rw [heard_append_singleton, if_neg new, List.map_append, all,
      List.take_of_length_le (by rw [List.length_append, List.length_singleton]; omega), own]
    rfl
  · rcases List.mem_append.mp member with old | last
    · rw [filter_other (absent x old)]
      exact h.entries x old
    · rw [List.mem_singleton.mp last, filter_own own]
      have none : rs.filter (fun r => key r = tag e) = [] := by
        refine List.filter_eq_nil_iff.mpr fun x before => ?_
        intro same
        rw [decide_eq_true_eq, ← own] at same
        exact new (mem_heard.mpr ⟨x, before, same⟩)
      rw [none]
      exact keeps

end Lists

end Roster
