/-
# Suggestions are the aliases within two edits

An edit inserts, deletes or replaces one character, anywhere in a text, and edits are made one after the
other. `Text.editDistance` looks at no edits: it fills a table row by row. The two meet in a recurrence on
the last characters of both texts, `Text.distance`.

* As many edits as the recurrence says are enough (`Text.turnsInto_distance`). The edits that turn one
  start of a text into another do the same inside the text, so what is left is to edit a last character.
* Fewer are not enough (`Text.distance_le_length`), since one edit, wherever it is made, brings a text
  nearer to another by one at most (`Text.distance_le_of_perform?`).
* The table holds the recurrence. A row has the distances to every start of the second text, and one more
  character of the first gives the next row (`Text.advanceRow_row`, `Text.foldl_advanceRow`).

So the last entry of the last row is the least number of edits, and the suggestions for a word are the
aliases that two edits or fewer turn it into.

Key definitions: `Text.Edit.perform?`, `Text.TurnsInto`, `Text.distance`, `Text.row`.
Key theorems: `Text.turnsInto_distance`, `Text.distance_le_length`, `Text.editDistance_eq_distance`,
`Text.isLeast_editDistance`, `suggestions_are_within_two_edits`.
-/
import Mathlib
import FlowSelect.Column

namespace FlowSelect
namespace Text

/-! ### Edits -/

/-- A change of one character of a text. Places are counted from the start. -/
inductive Edit where
  | insert (place : Nat) (c : Char)
  | delete (place : Nat)
  | substitute (place : Nat) (c : Char)
  deriving DecidableEq, Repr

namespace Edit

/-- The text after an edit. A character may be inserted at the end, but there is none to delete or to
replace there. -/
def perform? : Edit → List Char → Option (List Char)
  | insert place c, s => if place ≤ s.length then some (s.take place ++ c :: s.drop place) else none
  | delete place, s => if place < s.length then some (s.take place ++ s.drop (place + 1)) else none
  | substitute place c, s =>
    if place < s.length then some (s.take place ++ c :: s.drop (place + 1)) else none

/-- The text after edits that are made one after the other. -/
def run? : List Edit → List Char → Option (List Char)
  | [], s => some s
  | e :: script, s => (e.perform? s).bind (run? script)

end Edit

/-- Some `n` edits turn `s` into `t`. -/
def TurnsInto (n : Nat) (s t : List Char) : Prop :=
  ∃ script : List Edit, script.length = n ∧ Edit.run? script s = some t

variable {e : Edit} {s t r : List Char} {n : Nat}

namespace Edit

theorem insert_perform? (front back : List Char) (c : Char) :
    (insert front.length c).perform? (front ++ back) = some (front ++ c :: back) := by
  simp [perform?]

theorem delete_perform? (front back : List Char) (c : Char) :
    (delete front.length).perform? (front ++ c :: back) = some (front ++ back) := by
  simp [perform?]

theorem substitute_perform? (front back : List Char) (c d : Char) :
    (substitute front.length d).perform? (front ++ c :: back) = some (front ++ d :: back) := by
  simp [perform?]

/-- An edit does one of three things at the place where it cuts the text in two. -/
theorem perform?_cases (h : e.perform? s = some t) : ∃ front back : List Char,
    (∃ c, e = insert front.length c ∧ s = front ++ back ∧ t = front ++ c :: back) ∨
    (∃ c, e = delete front.length ∧ s = front ++ c :: back ∧ t = front ++ back) ∨
    (∃ c d, e = substitute front.length d ∧ s = front ++ c :: back ∧ t = front ++ d :: back) := by
  have hcut : ∀ place (hplace : place < s.length), s = s.take place ++ s[place] :: s.drop (place + 1) := by
    intro place hplace
    rw [← List.drop_eq_getElem_cons hplace, List.take_append_drop]
  cases e with
  | insert place c =>
    obtain ⟨hplace, ht⟩ := Option.ite_none_right_eq_some.mp h
    refine ⟨s.take place, s.drop place, .inl ⟨c, ?_, (List.take_append_drop place s).symm, ?_⟩⟩
    · rw [List.length_take_of_le hplace]
    · exact (Option.some.inj ht).symm
  | delete place =>
    obtain ⟨hplace, ht⟩ := Option.ite_none_right_eq_some.mp h
    refine ⟨s.take place, s.drop (place + 1), .inr (.inl ⟨s[place], ?_, hcut place hplace, ?_⟩)⟩
    · rw [List.length_take_of_le hplace.le]
    · exact (Option.some.inj ht).symm
  | substitute place d =>
    obtain ⟨hplace, ht⟩ := Option.ite_none_right_eq_some.mp h
    refine ⟨s.take place, s.drop (place + 1), .inr (.inr ⟨s[place], d, ?_, hcut place hplace, ?_⟩)⟩
    · rw [List.length_take_of_le hplace.le]
    · exact (Option.some.inj ht).symm

/-- An edit inside a start of a text leaves the rest of the text as it is. -/
theorem perform?_append (h : e.perform? s = some t) (r : List Char) :
    e.perform? (s ++ r) = some (t ++ r) := by
  obtain ⟨front, back, ⟨c, rfl, rfl, rfl⟩ | ⟨c, rfl, rfl, rfl⟩ | ⟨c, d, rfl, rfl, rfl⟩⟩ := perform?_cases h
  · simp only [List.append_assoc, List.cons_append, insert_perform?]
  · simp only [List.append_assoc, List.cons_append, delete_perform?]
  · simp only [List.append_assoc, List.cons_append, substitute_perform?]

theorem run?_append : ∀ {script : List Edit} {s : List Char}, run? script s = some t →
    ∀ r, run? script (s ++ r) = some (t ++ r)
  | [], s, h, r => by
    obtain rfl : s = t := Option.some.inj h
    rfl
  | e :: script, s, h, r => by
    obtain ⟨s', hs', hrest⟩ := Option.bind_eq_some_iff.mp h
    rw [run?, perform?_append hs' r, Option.bind_some]
    exact run?_append hrest r

theorem run?_concat (e : Edit) : ∀ (script : List Edit) (s : List Char),
    run? (script ++ [e]) s = (run? script s).bind e.perform?
  | [], s => by
    show (e.perform? s).bind some = e.perform? s
    exact Option.bind_fun_some _
  | e' :: script, s => by
    rw [List.cons_append, run?, run?, Option.bind_assoc]
    congr 1
    funext s'
    exact run?_concat e script s'

end Edit

/-! ### Edits of a last character -/

namespace TurnsInto

theorem append (h : TurnsInto n s t) (r : List Char) : TurnsInto n (s ++ r) (t ++ r) := by
  obtain ⟨script, hlength, hrun⟩ := h
  exact ⟨script, hlength, Edit.run?_append hrun r⟩

theorem concat (h : TurnsInto n s t) (he : e.perform? t = some r) : TurnsInto (n + 1) s r := by
  obtain ⟨script, hlength, hrun⟩ := h
  refine ⟨script ++ [e], ?_, ?_⟩
  · rw [List.length_append, hlength, List.length_singleton]
  · rw [Edit.run?_concat, hrun, Option.bind_some, he]

theorem insert_last (h : TurnsInto n s t) (c : Char) : TurnsInto (n + 1) s (t ++ [c]) := by
  apply h.concat
  rw [← Edit.insert_perform? t [] c, List.append_nil]

theorem delete_last (h : TurnsInto n s t) (c : Char) : TurnsInto (n + 1) (s ++ [c]) t := by
  apply (h.append [c]).concat
  rw [Edit.delete_perform? t [] c, List.append_nil]

theorem substitute_last (h : TurnsInto n s t) (c d : Char) : TurnsInto (n + 1) (s ++ [c]) (t ++ [d]) := by
  apply (h.append [c]).concat
  exact Edit.substitute_perform? t [] c d

end TurnsInto

/-! ### The recurrence -/

/-- The distance of two texts by their last characters: that of the second is inserted, or that of the
first is deleted, or the one takes the other's place, for nothing if they are equal. Both lists hold their
text's characters from the last to the first. -/
def distance : List Char → List Char → Nat
  | [], [] => 0
  | [], _ :: v => distance [] v + 1
  | _ :: u, [] => distance u [] + 1
  | x :: u, y :: v =>
    min (min (distance (x :: u) v + 1) (distance u (y :: v) + 1)) (distance u v + if x = y then 0 else 1)

theorem distance_cons_nil (x : Char) (u : List Char) : distance (x :: u) [] = distance u [] + 1 := by
  rw [distance]

theorem distance_cons_cons (x : Char) (u : List Char) (y : Char) (v : List Char) :
    distance (x :: u) (y :: v) = min (min (distance (x :: u) v + 1) (distance u (y :: v) + 1))
      (distance u v + if x = y then 0 else 1) := by
  rw [distance]

theorem distance_nil_left : ∀ v : List Char, distance [] v = v.length
  | [] => by rw [distance, List.length_nil]
  | y :: v => by rw [distance, distance_nil_left v, List.length_cons]

theorem distance_self : ∀ u : List Char, distance u u = 0
  | [] => distance_nil_left []
  | x :: u => by
    rw [distance_cons_cons, distance_self u, if_pos rfl]
    omega

/-- **As many edits as the distance says are enough.** -/
theorem turnsInto_distance (u v : List Char) : TurnsInto (distance u v) u.reverse v.reverse := by
  fun_induction distance u v with
  | case1 => exact ⟨[], rfl, rfl⟩
  | case2 y v ih =>
    rw [List.reverse_cons]
    exact ih.insert_last y
  | case3 x u ih =>
    rw [List.reverse_cons]
    exact ih.delete_last x
  | case4 x u y v insert delete substitute =>
    simp only [List.reverse_cons] at insert delete ⊢
    have hsubstitute : TurnsInto (distance u v + if x = y then 0 else 1)
        (u.reverse ++ [x]) (v.reverse ++ [y]) := by
      by_cases hxy : x = y
      · rw [if_pos hxy, hxy]
        exact substitute.append [y]
      · rw [if_neg hxy]
        exact substitute.substitute_last x y
    -- each of the three ways is open, so the cheapest is
    apply min_rec' (TurnsInto · _ _)
    · apply min_rec' (TurnsInto · _ _)
      · exact insert.insert_last y
      · exact delete.delete_last x
    · exact hsubstitute

/-! ### One edit changes a distance by one at most -/

theorem distance_cons_left_le (x : Char) (u v : List Char) : distance (x :: u) v ≤ distance u v + 1 := by
  cases v with
  | nil => rw [distance_cons_nil]
  | cons y v =>
    rw [distance_cons_cons]
    omega

theorem distance_cons_right_le (u : List Char) (y : Char) (v : List Char) :
    distance u (y :: v) ≤ distance u v + 1 := by
  cases u with
  | nil => rw [distance]
  | cons x u =>
    rw [distance_cons_cons]
    omega

theorem distance_cons_cons_le (x : Char) (u : List Char) (y : Char) (v : List Char) :
    distance (x :: u) (y :: v) ≤ distance u v + 1 := by
  rw [distance_cons_cons]
  split <;> omega

theorem distance_le_cons_left (u : List Char) (x : Char) : ∀ v, distance u v ≤ distance (x :: u) v + 1
  | [] => by
    rw [distance_cons_nil]
    omega
  | y :: v => by
    have hinsert := distance_cons_right_le u y v
    have hrest := distance_le_cons_left u x v
    rw [distance_cons_cons]
    omega

theorem distance_cons_left_le_cons_left (u : List Char) (x y : Char) :
    ∀ v, distance (x :: u) v ≤ distance (y :: u) v + 1
  | [] => by
    rw [distance_cons_nil, distance_cons_nil]
    omega
  | z :: v => by
    have hdelete := distance_cons_left_le x u (z :: v)
    have hinsert := distance_cons_right_le (x :: u) z v
    have hsubstitute := distance_cons_cons_le x u z v
    have hrest := distance_cons_left_le_cons_left u x y v
    rw [distance_cons_cons y]
    omega

variable {u u' : List Char}

/-- The same character put behind two texts leaves them as near to each other as they were. -/
theorem distance_cons_le_of_forall (h : ∀ v, distance u v ≤ distance u' v + 1) (x : Char) :
    ∀ v, distance (x :: u) v ≤ distance (x :: u') v + 1
  | [] => by
    rw [distance_cons_nil, distance_cons_nil]
    exact Nat.add_le_add_right (h []) 1
  | y :: v => by
    have hinsert := distance_cons_le_of_forall h x v
    have hdelete := h (y :: v)
    have hsubstitute := h v
    rw [distance_cons_cons, distance_cons_cons]
    omega

theorem distance_append_le_of_forall (h : ∀ v, distance u v ≤ distance u' v + 1) :
    ∀ w v, distance (w ++ u) v ≤ distance (w ++ u') v + 1
  | [] => h
  | x :: w => distance_cons_le_of_forall (distance_append_le_of_forall h w) x

/-- **One edit brings a text nearer to another by one at most.** -/
theorem distance_le_of_perform? (h : e.perform? s = some t) (v : List Char) :
    distance s.reverse v ≤ distance t.reverse v + 1 := by
  -- what stands behind the place of the edit is the same in both texts
  obtain ⟨front, back, ⟨c, -, rfl, rfl⟩ | ⟨c, -, rfl, rfl⟩ | ⟨c, d, -, rfl, rfl⟩⟩ := e.perform?_cases h
  all_goals simp only [List.reverse_append, List.reverse_cons, List.append_assoc, List.singleton_append]
  all_goals apply distance_append_le_of_forall
  · exact distance_le_cons_left front.reverse c
  · exact distance_cons_left_le c front.reverse
  · exact distance_cons_left_le_cons_left front.reverse c d

/-- **Fewer edits than the distance says are not enough.** -/
theorem distance_le_length : ∀ {script : List Edit} {s : List Char}, Edit.run? script s = some t →
    distance s.reverse t.reverse ≤ script.length
  | [], s, h => by
    obtain rfl : s = t := Option.some.inj h
    rw [distance_self, List.length_nil]
  | e :: script, s, h => by
    obtain ⟨s', hs', hrest⟩ := Option.bind_eq_some_iff.mp h
    calc distance s.reverse t.reverse
      _ ≤ distance s'.reverse t.reverse + 1 := distance_le_of_perform? hs' _
      _ ≤ script.length + 1 := Nat.add_le_add_right (distance_le_length hrest) 1

/-! ### The table -/

/-- The distances from `u` to a text and to its continuations along `b`, one character longer each time;
`v` is that text from its last character to its first. -/
def row (u : List Char) : (v b : List Char) → List Nat
  | v, [] => [distance u v]
  | v, c :: b => distance u v :: row u (c :: v) b

theorem row_eq_cons (u v b : List Char) : row u v b = distance u v :: (row u v b).tail := by
  cases b <;> rfl

theorem row_nil : ∀ v b : List Char, row [] v b = List.range' v.length (b.length + 1)
  | v, [] => by
    rw [row, distance_nil_left]
    rfl
  | v, c :: b => by
    rw [row, row_nil (c :: v) b, distance_nil_left]
    exact List.range'_succ.symm

theorem getLastD_row (u : List Char) : ∀ (v b : List Char) (n : Nat),
    (row u v b).getLastD n = distance u (b.reverse ++ v)
  | v, [], n => rfl
  | v, c :: b, n => by
    rw [row, List.getLastD_cons, getLastD_row u (c :: v) b, List.reverse_cons, List.append_assoc,
      List.singleton_append]

/-- The entries still to come of a row, from those of the row above. -/
theorem nextRow_row (x : Char) (u : List Char) : ∀ v b : List Char,
    nextRow x (distance (x :: u) v) (distance u v) (row u v b).tail b = (row (x :: u) v b).tail
  | v, [] => rfl
  | v, c :: b => by
    rw [row, row, List.tail_cons, List.tail_cons, row_eq_cons u (c :: v) b, nextRow, ← distance_cons_cons,
      nextRow_row x u (c :: v) b, ← row_eq_cons]

theorem advanceRow_row (x : Char) (u b : List Char) : advanceRow x b (row u [] b) = row (x :: u) [] b := by
  rw [row_eq_cons u, advanceRow, ← distance_cons_nil x u, nextRow_row, ← row_eq_cons]

/-- **Every row holds distances.** -/
theorem foldl_advanceRow (b : List Char) : ∀ a u : List Char,
    a.foldl (fun row c => advanceRow c b row) (row u [] b) = row (a.reverse ++ u) [] b
  | [], u => rfl
  | x :: a, u => by
    rw [List.foldl_cons, advanceRow_row, foldl_advanceRow b a, List.reverse_cons, List.append_assoc,
      List.singleton_append]

theorem editDistance_eq_distance (a b : String) :
    editDistance a b = distance a.toList.reverse b.toList.reverse := by
  have hfirst : List.range (b.toList.length + 1) = row [] [] b.toList := by
    rw [row_nil, List.range_eq_range', List.length_nil]
  unfold editDistance
  simp only [hfirst, foldl_advanceRow, getLastD_row, List.append_nil]

theorem isLeast_editDistance (a b : String) :
    IsLeast {n | TurnsInto n a.toList b.toList} (editDistance a b) := by
  rw [editDistance_eq_distance]
  constructor
  · have henough := turnsInto_distance a.toList.reverse b.toList.reverse
    rwa [List.reverse_reverse, List.reverse_reverse] at henough
  · rintro n ⟨script, rfl, hrun⟩
    exact distance_le_length hrun

end Text

open Classical in
/-- **Suggestions are the aliases within two edits.** The distance of two texts is the least number of
insertions, deletions and substitutions of one character that turn the first into the second. The
suggestions for a word are the aliases that two of them or fewer turn it into, in the order of the schema. -/
theorem suggestions_are_within_two_edits :
    (∀ a b : String, IsLeast {n | Text.TurnsInto n a.toList b.toList} (Text.editDistance a b)) ∧
    ∀ (s : Schema) (word : String),
      s.suggestions word =
        s.aliases.filter fun name => ∃ n ≤ 2, Text.TurnsInto n word.toList name.toList := by
  refine ⟨Text.isLeast_editDistance, ?_⟩
  intro s word
  apply List.filter_congr
  intro name _
  obtain ⟨hturns, hleast⟩ := Text.isLeast_editDistance word name
  have hwithin : Text.editDistance word name ≤ 2 ↔ ∃ n ≤ 2, Text.TurnsInto n word.toList name.toList :=
    ⟨fun h => ⟨_, h, hturns⟩, fun ⟨n, hn, h⟩ => (hleast h).trans hn⟩
  exact decide_eq_decide.mpr hwithin

end FlowSelect
