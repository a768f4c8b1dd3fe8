import Mathlib

/-!
# The words of a text

A word is a maximal run of characters that are not separators. `words` lists them in order, each
with the index of its first character: `mem_words_iff` and `words_sorted`.
-/

namespace Words

variable {α : Type*} (sep : α → Bool)

/-- A word begins at index `j`. -/
def startsWord (xs : List α) (j : ℕ) : Bool :=
  xs[j]?.any (fun c => !sep c) && (j == 0 || xs[j - 1]?.any sep)

/-- The characters from index `j` on that are in one word. -/
def wordAt (xs : List α) (j : ℕ) : List α := (xs.drop j).takeWhile fun c => !sep c

def wordStarts (xs : List α) : List ℕ := (List.range xs.length).filter (startsWord sep xs)

def words (xs : List α) : List (ℕ × List α) :=
  (wordStarts sep xs).map fun j => (j, wordAt sep xs j)

/-- `w` is a run of characters from index `i` on that are not separators, and no longer one has
it as a part. -/
def MaximalRun (xs : List α) (i : ℕ) (w : List α) : Prop :=
  ∃ front back, xs = front ++ (w ++ back) ∧ front.length = i ∧ w ≠ [] ∧ (∀ c ∈ w, sep c = false) ∧
    (∀ c, front.getLast? = some c → sep c = true) ∧ ∀ c, back.head? = some c → sep c = true

variable {sep} {xs : List α} {i j : ℕ}

theorem startsWord_iff : startsWord sep xs j = true ↔
    (∃ c, xs[j]? = some c ∧ sep c = false) ∧
      (j = 0 ∨ ∃ c, xs[j - 1]? = some c ∧ sep c = true) := by
  rw [startsWord]
  cases xs[j]? with
  | none => simp
  | some c =>
      cases xs[j - 1]? with
      | none => simp
      | some b => simp

theorem wordAt_clean (j : ℕ) : ∀ c ∈ wordAt sep xs j, sep c = false := by
  intro c member
  have clean := List.mem_takeWhile_imp member
  simpa using clean

theorem take_wordAt (j : ℕ) : (xs.drop j).take (wordAt sep xs j).length = wordAt sep xs j := by
  have split := List.takeWhile_append_dropWhile (p := fun c => !sep c) (l := xs.drop j)
  nth_rewrite 1 [← split]
  exact List.take_left

theorem getElem?_wordAt {k : ℕ} (less : k < (wordAt sep xs j).length) :
    xs[j + k]? = (wordAt sep xs j)[k]? := by
  have word : (xs.drop j).take (wordAt sep xs j).length = wordAt sep xs j := take_wordAt j
  have here := congrArg (·[k]?) word
  rw [List.getElem?_take_of_lt less, List.getElem?_drop] at here
  exact here

theorem wordAt_le (inside : j ≤ xs.length) : j + (wordAt sep xs j).length ≤ xs.length := by
  have le : (wordAt sep xs j).length ≤ (xs.drop j).length :=
    (List.takeWhile_prefix _).length_le
  rw [List.length_drop] at le
  omega

/-- A word ends at a separator, or where the text does. -/
theorem wordAt_end {c : α} (next : xs[j + (wordAt sep xs j).length]? = some c) : sep c = true := by
  have split := List.takeWhile_append_dropWhile (p := fun c => !sep c) (l := xs.drop j)
  have rest : (xs.drop j).dropWhile (fun c => !sep c) =
      xs.drop (j + (wordAt sep xs j).length) := by
    rw [← List.drop_drop]
    nth_rewrite 2 [← split]
    exact List.drop_left.symm
  have first := List.head?_dropWhile_not (fun c => !sep c) (xs.drop j)
  rw [rest, List.head?_drop, next] at first
  simpa using first

/-- There is a separator between where a word ends and where a later one begins. -/
theorem wordAt_before (less : i < j) (starts : startsWord sep xs j = true) :
    i + (wordAt sep xs i).length < j := by
  obtain ⟨-, zero | ⟨c, before, blank⟩⟩ := startsWord_iff.mp starts
  · omega
  · by_contra reaches
    obtain ⟨k, at_⟩ : ∃ k, j - 1 = i + k := ⟨j - 1 - i, by omega⟩
    have inside : k < (wordAt sep xs i).length := by omega
    rw [at_, getElem?_wordAt inside] at before
    have clean := wordAt_clean i c (List.mem_of_getElem? before)
    rw [blank] at clean
    cases clean

theorem wordAt_ne_nil (starts : startsWord sep xs j = true) : wordAt sep xs j ≠ [] := by
  obtain ⟨⟨c, here, clean⟩, -⟩ := startsWord_iff.mp starts
  intro none
  have ends : xs[j + (wordAt sep xs j).length]? = some c := by rw [none]; exact here
  rw [wordAt_end ends] at clean
  cases clean

theorem startsWord_lt (starts : startsWord sep xs j = true) : j < xs.length := by
  obtain ⟨⟨c, here, -⟩, -⟩ := startsWord_iff.mp starts
  exact (List.getElem?_eq_some_iff.mp here).1

theorem mem_wordStarts : j ∈ wordStarts sep xs ↔ startsWord sep xs j = true := by
  rw [wordStarts, List.mem_filter, List.mem_range]
  exact and_iff_right_of_imp startsWord_lt

/-- **The words are the maximal runs.** -/
theorem mem_words_iff {w : List α} : (j, w) ∈ words sep xs ↔ MaximalRun sep xs j w := by
  constructor
  · intro member
    obtain ⟨j', starts, same⟩ := List.mem_map.mp member
    obtain ⟨rfl, rfl⟩ := Prod.mk.inj same
    have begins := mem_wordStarts.mp starts
    have inside := startsWord_lt begins
    refine ⟨xs.take j', xs.drop (j' + (wordAt sep xs j').length), ?_,
      List.length_take_of_le inside.le, wordAt_ne_nil begins, wordAt_clean j', ?_, ?_⟩
    · have rest := List.take_append_drop (wordAt sep xs j').length (xs.drop j')
      rw [take_wordAt, List.drop_drop] at rest
      rw [rest, List.take_append_drop]
    · intro c last
      rw [List.getLast?_take] at last
      split at last
      · cases last
      · obtain ⟨-, zero | ⟨b, before, blank⟩⟩ := startsWord_iff.mp begins
        · exact absurd zero ‹_›
        · rw [before] at last
          cases last
          exact blank
    · intro c first
      rw [List.head?_drop] at first
      exact wordAt_end first
  · rintro ⟨front, back, rfl, rfl, some_, clean, before, after⟩
    have here : wordAt sep (front ++ (w ++ back)) front.length = w := by
      rw [wordAt, List.drop_left, List.takeWhile_append_of_pos (by simpa using clean)]
      cases back with
      | nil => simp
      | cons c back => simp [after c rfl]
    have starts : startsWord sep (front ++ (w ++ back)) front.length = true := by
      refine startsWord_iff.mpr ⟨?_, ?_⟩
      · obtain ⟨c, rest, rfl⟩ := List.exists_cons_of_ne_nil some_
        exact ⟨c, by simp, clean c List.mem_cons_self⟩
      · rcases List.eq_nil_or_concat front with rfl | ⟨init, c, rfl⟩
        · exact Or.inl rfl
        · exact Or.inr ⟨c, by simp, before c (by simp)⟩
    exact List.mem_map.mpr ⟨front.length, mem_wordStarts.mpr starts, by rw [here]⟩

/-- They are listed in order. -/
theorem words_sorted : (words sep xs).Pairwise fun w w' => w.1 < w'.1 := by
  rw [words, List.pairwise_map]
  exact List.pairwise_lt_range.filter _

end Words
