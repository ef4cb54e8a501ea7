import Mathlib.Data.List.Basic
import Mathlib.Data.List.Nodup
import Mathlib.Data.List.Infix

/-!
A sequence stored in equal-sized cells groups ("segments") that are reached
through a list of identifiers. `flat` is the concatenation of the listed
segments and `window` the part of it between two absolute positions. Position
`p` lies in the segment listed at `p / width`, at offset `p % width`. The laws
say how reads, single stores, and changes of the identifier list act on a
window; identifiers must be listed once for a store to have one effect.
-/

namespace Npoller.Segments

variable {Id α : Type}

def segment (width : Nat) (cells : Id → Nat → α) (id : Id) : List α :=
  (List.range width).map (cells id)

def flat (width : Nat) (cells : Id → Nat → α) (ids : List Id) : List α :=
  ids.flatMap (segment width cells)

def window (width : Nat) (cells : Id → Nat → α) (ids : List Id) (start stop : Nat) : List α :=
  ((flat width cells ids).take stop).drop start

def store [DecidableEq Id] (cells : Id → Nat → α) (id : Id) (offset : Nat) (value : α) :
    Id → Nat → α :=
  fun key index => if key = id ∧ index = offset then value else cells key index

variable {width : Nat} {cells : Id → Nat → α}

section Layout

@[simp] theorem segment_length (id : Id) : (segment width cells id).length = width := by
  simp [segment]

@[simp] theorem flat_nil : flat width cells [] = [] := rfl

@[simp] theorem flat_cons (id : Id) (ids : List Id) :
    flat width cells (id :: ids) = segment width cells id ++ flat width cells ids := rfl

@[simp] theorem flat_append (left right : List Id) :
    flat width cells (left ++ right) = flat width cells left ++ flat width cells right := by
  simp [flat]

@[simp] theorem flat_length (ids : List Id) :
    (flat width cells ids).length = ids.length * width := by
  induction ids with
  | nil => simp
  | cons id rest ih => simp only [flat_cons, List.length_append, segment_length, ih,
      List.length_cons, Nat.succ_mul, Nat.add_comm]

theorem window_length {ids : List Id} {start stop : Nat} (within : stop ≤ ids.length * width) :
    (window width cells ids start stop).length = stop - start := by
  simp [window, Nat.min_eq_left within]

@[simp] theorem window_empty (ids : List Id) (start : Nat) :
    window width cells ids start start = [] := by
  apply List.eq_nil_of_length_eq_zero
  simp [window]

theorem window_nil_of_le (ids : List Id) {start stop : Nat} (order : stop ≤ start) :
    window width cells ids start stop = [] := by
  apply List.eq_nil_of_length_eq_zero
  simp only [window, List.length_drop, List.length_take]
  omega

theorem window_append {ids : List Id} {start middle stop : Nat}
    (before : start ≤ middle) (after : middle ≤ stop) (within : stop ≤ ids.length * width) :
    window width cells ids start stop =
      window width cells ids start middle ++ window width cells ids middle stop := by
  have bound : middle ≤ (flat width cells ids).length := by simp; omega
  have split := (List.take_append_drop middle ((flat width cells ids).take stop)).symm
  rw [List.take_take, Nat.min_eq_left after] at split
  have reach : start ≤ ((flat width cells ids).take middle).length := by
    rw [List.length_take]
    omega
  calc window width cells ids start stop
      = ((flat width cells ids).take middle ++
          ((flat width cells ids).take stop).drop middle).drop start := congrArg (List.drop start) split
    _ = window width cells ids start middle ++ window width cells ids middle stop :=
          List.drop_append_of_le_length reach

theorem window_drop {ids : List Id} {start stop : Nat} (count : Nat) :
    (window width cells ids start stop).drop count =
      window width cells ids (start + count) stop := by
  simp [window, List.drop_drop]

theorem window_take {ids : List Id} {start stop count : Nat} (short : start + count ≤ stop) :
    (window width cells ids start stop).take count =
      window width cells ids start (start + count) := by
  rw [window, window, List.take_drop, List.take_take, Nat.min_eq_left short]

theorem window_congr {other : Id → Nat → α} {ids : List Id}
    (same : ∀ id ∈ ids, other id = cells id) (start stop : Nat) :
    window width other ids start stop = window width cells ids start stop := by
  have flats : flat width other ids = flat width cells ids := by
    apply List.flatMap_congr
    intro id member
    rw [segment, segment, same id member]
  rw [window, window, flats]

end Layout

section Reads

theorem flat_getElem? {ids : List Id} {id : Id} {position : Nat} (positive : 0 < width)
    (found : ids[position / width]? = some id) :
    (flat width cells ids)[position]? = some (cells id (position % width)) := by
  induction ids generalizing position with
  | nil => simp at found
  | cons head rest ih =>
      rw [flat_cons]
      by_cases first : position < width
      · rw [Nat.div_eq_of_lt first, List.getElem?_cons_zero, Option.some.injEq] at found
        subst found
        rw [List.getElem?_append_left (by simpa using first), Nat.mod_eq_of_lt first]
        simp [segment, first]
      · have later : width ≤ position := Nat.le_of_not_lt first
        have shift : position / width = (position - width) / width + 1 := by
          rw [← Nat.sub_add_cancel later, Nat.add_div_right _ positive, Nat.add_sub_cancel]
        rw [shift, List.getElem?_cons_succ] at found
        rw [List.getElem?_append_right (by simpa using later), segment_length, ih found,
          ← Nat.mod_eq_sub_mod later]

theorem window_getElem? {ids : List Id} {id : Id} {start stop index : Nat} (positive : 0 < width)
    (inside : start + index < stop) (found : ids[(start + index) / width]? = some id) :
    (window width cells ids start stop)[index]? = some (cells id ((start + index) % width)) := by
  rw [window, List.getElem?_drop, List.getElem?_take_of_lt inside]
  exact flat_getElem? positive found

theorem listed_position {ids : List Id} {position : Nat} (within : position < ids.length * width) :
    ∃ id, ids[position / width]? = some id := by
  have bound : position / width < ids.length := Nat.div_lt_of_lt_mul (by rwa [Nat.mul_comm])
  exact ⟨ids[position / width], List.getElem?_eq_getElem bound⟩

theorem window_head {ids : List Id} {id : Id} {start stop : Nat} (positive : 0 < width)
    (inside : start < stop) (within : stop ≤ ids.length * width)
    (found : ids[start / width]? = some id) :
    window width cells ids start stop =
      cells id (start % width) :: window width cells ids (start + 1) stop := by
  rw [window_append (Nat.le_succ start) inside within]
  have single : window width cells ids start (start + 1) = [cells id (start % width)] := by
    apply List.ext_getElem?
    intro index
    cases index with
    | zero => exact window_getElem? positive (Nat.lt_succ_self start) found
    | succ index =>
        rw [List.getElem?_eq_none (by rw [window_length (by omega)]; omega)]
        rfl
  rw [single]
  rfl

theorem window_last {ids : List Id} {id : Id} {start stop : Nat} (positive : 0 < width)
    (inside : start ≤ stop) (within : stop + 1 ≤ ids.length * width)
    (found : ids[stop / width]? = some id) :
    window width cells ids start (stop + 1) =
      window width cells ids start stop ++ [cells id (stop % width)] := by
  rw [window_append inside (Nat.le_succ stop) within,
    window_head positive (Nat.lt_succ_self stop) within found, window_empty]

end Reads

section Stores
variable [DecidableEq Id]

theorem segment_store_other {id other : Id} (different : other ≠ id) (offset : Nat) (value : α) :
    segment width (store cells id offset value) other = segment width cells other := by
  apply List.map_congr_left
  intro index _
  simp [store, different]

theorem flat_store_absent {ids : List Id} {id : Id} (absent : id ∉ ids)
    (offset : Nat) (value : α) :
    flat width (store cells id offset value) ids = flat width cells ids := by
  apply List.flatMap_congr
  intro other member
  apply segment_store_other
  intro same
  subst same
  exact absent member

theorem segment_store_self (id : Id) (offset : Nat) (value : α) :
    segment width (store cells id offset value) id = (segment width cells id).set offset value := by
  apply List.ext_getElem?
  intro index
  rw [List.getElem?_set]
  by_cases inside : index < width
  · by_cases same : offset = index
    · subst same
      simp [segment, store, inside]
    · simp [segment, store, inside, same, Ne.symm same]
  · have outside : (segment width (store cells id offset value) id)[index]? = none :=
      List.getElem?_eq_none (by simpa using inside)
    have unset : (segment width cells id)[index]? = none :=
      List.getElem?_eq_none (by simpa using inside)
    rw [outside, unset]
    by_cases same : offset = index
    · subst same
      simp [inside]
    · simp [same]

theorem flat_store {ids : List Id} {id : Id} {position : Nat} (positive : 0 < width)
    (unique : ids.Nodup) (found : ids[position / width]? = some id) (value : α) :
    flat width (store cells id (position % width) value) ids =
      (flat width cells ids).set position value := by
  induction ids generalizing position with
  | nil => simp at found
  | cons head rest ih =>
      obtain ⟨fresh, restUnique⟩ := List.nodup_cons.mp unique
      rw [flat_cons, flat_cons]
      by_cases first : position < width
      · rw [Nat.div_eq_of_lt first, List.getElem?_cons_zero, Option.some.injEq] at found
        subst found
        rw [segment_store_self, flat_store_absent fresh, Nat.mod_eq_of_lt first,
          List.set_append_left _ _ (by simpa using first)]
      · have later : width ≤ position := Nat.le_of_not_lt first
        have shift : position / width = (position - width) / width + 1 := by
          rw [← Nat.sub_add_cancel later, Nat.add_div_right _ positive, Nat.add_sub_cancel]
        rw [shift, List.getElem?_cons_succ] at found
        have member : id ∈ rest := List.mem_of_getElem? found
        have different : head ≠ id := by
          intro same
          subst same
          exact fresh member
        rw [segment_store_other different, Nat.mod_eq_sub_mod later, ih restUnique found,
          List.set_append_right _ _ (by simpa using later), segment_length]

theorem window_store_absent {ids : List Id} {id : Id} (absent : id ∉ ids)
    (offset : Nat) (value : α) (start stop : Nat) :
    window width (store cells id offset value) ids start stop =
      window width cells ids start stop := by
  rw [window, flat_store_absent absent, window]

theorem window_store_outside {ids : List Id} {id : Id} {position start stop : Nat}
    (positive : 0 < width) (unique : ids.Nodup) (found : ids[position / width]? = some id)
    (outside : position < start ∨ stop ≤ position) (value : α) :
    window width (store cells id (position % width) value) ids start stop =
      window width cells ids start stop := by
  rw [window, flat_store positive unique found, window]
  rcases outside with below | above
  · rw [List.take_set, List.drop_set_of_lt below]
  · rw [List.take_set_of_le above]

theorem window_store {ids : List Id} {id : Id} {start index : Nat} (positive : 0 < width)
    (unique : ids.Nodup) (found : ids[(start + index) / width]? = some id) (value : α)
    (stop : Nat) :
    window width (store cells id ((start + index) % width) value) ids start stop =
      (window width cells ids start stop).set index value := by
  rw [window, flat_store positive unique found, window, List.take_set, List.drop_set,
    if_neg (Nat.not_lt_of_le (Nat.le_add_right _ _)), Nat.add_sub_cancel_left]

theorem window_store_back {ids : List Id} {id : Id} {start stop : Nat}
    (positive : 0 < width) (unique : ids.Nodup) (found : ids[stop / width]? = some id)
    (order : start ≤ stop) (room : stop < ids.length * width) (value : α) :
    window width (store cells id (stop % width) value) ids start (stop + 1) =
      window width cells ids start stop ++ [value] := by
  rw [window_last positive order room found, window_store_outside positive unique found
    (Or.inr (Nat.le_refl stop))]
  simp [store]

theorem window_store_front {ids : List Id} {id : Id} {start stop : Nat}
    (positive : 0 < width) (unique : ids.Nodup) (found : ids[start / width]? = some id)
    (order : start + 1 ≤ stop) (within : stop ≤ ids.length * width) (value : α) :
    window width (store cells id (start % width) value) ids start stop =
      value :: window width cells ids (start + 1) stop := by
  rw [window_head positive order within found, window_store_outside positive unique found
    (Or.inl (Nat.lt_succ_self start))]
  simp [store]

end Stores

section Listing

theorem window_extend_back (ids more : List Id) {start stop : Nat}
    (within : stop ≤ ids.length * width) :
    window width cells (ids ++ more) start stop = window width cells ids start stop := by
  rw [window, flat_append, List.take_append_of_le_length (by simpa using within), window]

theorem window_extend_front (id : Id) (ids : List Id) (start stop : Nat) :
    window width cells (id :: ids) (start + width) (stop + width) =
      window width cells ids start stop := by
  have skip : start + width = (segment width cells id).length + start := by
    simp [Nat.add_comm]
  have keep : stop + width = (segment width cells id).length + stop := by
    simp [Nat.add_comm]
  rw [window, flat_cons, keep, List.take_length_add_append, skip, List.drop_length_add_append,
    window]

theorem window_drop_front {id : Id} {ids : List Id} {start stop : Nat}
    (before : width ≤ start) (order : start ≤ stop) :
    window width cells (id :: ids) start stop =
      window width cells ids (start - width) (stop - width) := by
  rw [← window_extend_front id ids, Nat.sub_add_cancel before,
    Nat.sub_add_cancel (Nat.le_trans before order)]

theorem flat_set {ids : List Id} {index : Nat} (inside : index < ids.length) (id : Id) :
    flat width cells (ids.set index id) = flat width cells (ids.take index) ++
      (segment width cells id ++ flat width cells (ids.drop (index + 1))) := by
  rw [List.set_eq_take_append_cons_drop, if_pos inside, flat_append, flat_cons]

theorem flat_take_length {ids : List Id} {index : Nat} (inside : index < ids.length) :
    (flat width cells (ids.take index)).length = index * width := by
  rw [flat_length, List.length_take, Nat.min_eq_left (Nat.le_of_lt inside)]

theorem window_set_self {ids : List Id} {index : Nat} (inside : index < ids.length) (id : Id) :
    window width cells (ids.set index id) (index * width) (index * width + width) =
      segment width cells id := by
  have front : (flat width cells (ids.take index)).length = _ := flat_take_length inside
  rw [window, flat_set inside, ← front, List.take_length_add_append, List.drop_left,
    List.take_append_of_le_length (by simp), List.take_of_length_le (by simp)]

theorem window_getElem_self {ids : List Id} {index : Nat} {id : Id}
    (found : ids[index]? = some id) :
    window width cells ids (index * width) (index * width + width) = segment width cells id := by
  obtain ⟨inside, same⟩ := List.getElem?_eq_some_iff.mp found
  rw [← window_set_self inside id, ← same, List.set_getElem_self]

end Listing

end Npoller.Segments
