import UtilityCss.Proofs.Collecting
import UtilityCss.Proofs.Splitting

/-!
# The words of a line

A word between two delimiters is found whatever stands around it, as long as the delimiter in front of it
is one: it stands outside of brackets and parentheses, and no backslash hides it.

* **Depths** — `depthsBehind`, which passes over hidden characters, tells whether a delimiter cuts behind a
  text.
* **Cutting** — `wordsFrom_append`: behind such a text a delimiter finishes the word being read, and the
  rest of the line is cut as a line of its own.  Nothing is carried over it, since the depths are zero and
  the word is empty.
* **One word** — `wordsFrom_of_isWord`: in a text that no delimiter cuts, every character joins the word.
-/

namespace UtilityCss.Candidate

open Text

/-! ## Depths -/

/-- The number of parentheses open behind a text; a closing one without an opening one does not count. -/
def parensOf (cs : List Char) : Nat :=
  cs.foldl parenDepth 0

/-- The depths of brackets and of parentheses behind a text.  A character behind a backslash does not
count. -/
def depthsBehind (brackets parens : Nat) : List Char → Nat × Nat
  | [] => (brackets, parens)
  | ['\\'] => (brackets, parens)
  | '\\' :: _ :: rest => depthsBehind brackets parens rest
  | c :: rest => depthsBehind (bracketDepth brackets c) (parenDepth parens c) rest

lemma parensOf_concat (cs : List Char) (c : Char) :
    parensOf (cs ++ [c]) = parenDepth (parensOf cs) c := by
  rw [parensOf, List.foldl_append]
  rfl

section
variable {c : Char} (hc : c ≠ '\\')
include hc

lemma depthsBehind_cons (brackets parens : Nat) (rest : List Char) :
    depthsBehind brackets parens (c :: rest)
      = depthsBehind (bracketDepth brackets c) (parenDepth parens c) rest := by
  rw [depthsBehind]
  · rintro rfl
    exact absurd rfl hc
  · rintro d rest' rfl
    exact absurd rfl hc

lemma wordsFrom_cons (brackets parens : Nat) (word rest : List Char) :
    wordsFrom brackets parens word (c :: rest) =
      if bracketDepth brackets c = 0 ∧ parenDepth parens c = 0 ∧ isDelimiter c = true then
        finishWord word ++ wordsFrom 0 0 [] rest
      else wordsFrom (bracketDepth brackets c) (parenDepth parens c) (c :: word) rest := by
  rw [wordsFrom]
  · simp only [Bool.and_eq_true, beq_iff_eq, and_assoc]
    split_ifs with hcut
    · rw [hcut.1, hcut.2.1]
    · rfl
  · rintro rfl
    exact absurd rfl hc
  · rintro d rest' rfl
    exact absurd rfl hc

end

/-- Without backslashes every character counts. -/
lemma depthsBehind_of_plain {cs : List Char} (h : '\\' ∉ cs) (brackets parens : Nat) :
    depthsBehind brackets parens cs = (cs.foldl bracketDepth brackets, cs.foldl parenDepth parens) := by
  induction cs generalizing brackets parens with
  | nil => rfl
  | cons c rest ih =>
      rw [List.mem_cons, not_or] at h
      rw [depthsBehind_cons (Ne.symm h.1), ih h.2]
      rfl

/-- Delimiters are neither brackets nor parentheses, and a delimiter hides nothing. -/
lemma not_mem_of_isDelimiter {c : Char} (h : isDelimiter c = true) :
    c ∉ ['[', ']', '(', ')', '\\'] := by
  have hno : ['[', ']', '(', ')', '\\'].all (fun d => !isDelimiter d) = true := by decide
  intro hmem
  have hplain := List.all_eq_true.1 hno c hmem
  rw [h] at hplain
  exact Bool.false_ne_true hplain

/-! ## Hidden ends -/

/-- What hides the end of a text depends on its last part only. -/
lemma endsHiding_append_congr {a b : List Char} (h : endsHiding a = endsHiding b) (cs : List Char) :
    endsHiding (a ++ cs) = endsHiding (b ++ cs) := by
  induction cs using List.reverseRecOn with
  | nil => simpa using h
  | append_singleton cs c ih =>
      rw [← List.append_assoc, ← List.append_assoc, endsHiding_concat, endsHiding_concat, ih]

/-- A hidden character hides nothing. -/
lemma endsHiding_escape (c : Char) (cs : List Char) :
    endsHiding ('\\' :: c :: cs) = endsHiding cs := by
  refine endsHiding_append_congr (a := ['\\', c]) (b := []) ?_ cs
  rw [show ['\\', c] = ['\\'] ++ [c] from rfl, endsHiding_concat]
  simp [endsHiding]

lemma endsHiding_cons {c : Char} (hc : c ≠ '\\') (cs : List Char) :
    endsHiding (c :: cs) = endsHiding cs := by
  refine endsHiding_append_congr (a := [c]) (b := []) ?_ cs
  simp [endsHiding, hc]

lemma endsHiding_of_plain {cs : List Char} (h : '\\' ∉ cs) : endsHiding cs = false := by
  induction cs with
  | nil => rfl
  | cons c rest ih =>
      rw [List.mem_cons, not_or] at h
      rw [endsHiding_cons (Ne.symm h.1), ih h.2]

/-! ## Cutting -/

/-- A delimiter behind a text that leaves nothing open finishes the word, and the rest is cut anew. -/
lemma wordsFrom_append {brackets parens : Nat} {word a : List Char} {d : Char}
    (hd : isDelimiter d = true) (hdepths : depthsBehind brackets parens a = (0, 0))
    (hend : endsHiding a = false) (rest : List Char) :
    wordsFrom brackets parens word (a ++ d :: rest)
      = wordsFrom brackets parens word a ++ wordsFrom 0 0 [] rest := by
  have hno := not_mem_of_isDelimiter hd
  simp only [List.mem_cons, List.not_mem_nil, or_false, not_or] at hno
  obtain ⟨hopening, hclosing, hopen, hclose, hslash⟩ := hno
  fun_induction depthsBehind brackets parens a generalizing word with
  | case1 brackets parens =>
      obtain ⟨rfl, rfl⟩ := Prod.mk.inj hdepths
      rw [List.nil_append, wordsFrom_cons hslash, if_pos, wordsFrom]
      simp [bracketDepth, parenDepth, hopening, hclosing, hopen, hclose, hd]
  | case2 brackets parens => cases hend
  | case3 brackets parens c a ih =>
      rw [endsHiding_escape] at hend
      show wordsFrom brackets parens word ('\\' :: c :: (a ++ d :: rest)) = _
      rw [wordsFrom, wordsFrom]
      exact ih hdepths hend
  | case4 brackets parens c a hlast hhides ih =>
      have hc : c ≠ '\\' := by
        rintro rfl
        cases a with
        | nil => exact hlast rfl rfl
        | cons e a => exact hhides e a rfl rfl
      rw [endsHiding_cons hc] at hend
      rw [List.cons_append, wordsFrom_cons hc, wordsFrom_cons hc]
      split_ifs with hcut
      · rw [hcut.1, hcut.2.1] at hdepths ih
        rw [ih hdepths hend, List.append_assoc]
      · exact ih hdepths hend

/-! ## One word -/

/-- A word as it can stand between delimiters: it has no backslash, everything opened in it is closed in
it, and no delimiter in it stands outside of brackets and parentheses. -/
structure IsWord (cs : List Char) : Prop where
  ne_nil : cs ≠ []
  plain : '\\' ∉ cs
  brackets : depthOf cs = 0
  parens : parensOf cs = 0
  uncut : ∀ i : Fin cs.length, isDelimiter cs[i] = true →
    ¬ (depthOf (cs.take i) = 0 ∧ parensOf (cs.take i) = 0)

instance : DecidablePred IsWord := fun cs =>
  decidable_of_iff (cs ≠ [] ∧ '\\' ∉ cs ∧ depthOf cs = 0 ∧ parensOf cs = 0 ∧
      ∀ i : Fin cs.length, isDelimiter cs[i] = true →
        ¬ (depthOf (cs.take i) = 0 ∧ parensOf (cs.take i) = 0))
    ⟨fun ⟨h₁, h₂, h₃, h₄, h₅⟩ => ⟨h₁, h₂, h₃, h₄, h₅⟩,
      fun h => ⟨h.ne_nil, h.plain, h.brackets, h.parens, h.uncut⟩⟩

/-- Where no delimiter cuts, the rest of the text joins the word. -/
lemma wordsFrom_of_uncut (seen : List Char) {rest : List Char} (hplain : '\\' ∉ rest)
    (huncut : ∀ before c after, rest = before ++ c :: after → isDelimiter c = true →
      ¬ (depthOf (seen ++ before) = 0 ∧ parensOf (seen ++ before) = 0)) :
    wordsFrom (depthOf seen) (parensOf seen) seen.reverse rest = finishWord (seen ++ rest).reverse := by
  induction rest generalizing seen with
  | nil => rw [wordsFrom, List.append_nil]
  | cons c rest ih =>
      rw [List.mem_cons, not_or] at hplain
      have hjoins : ¬ (bracketDepth (depthOf seen) c = 0 ∧ parenDepth (parensOf seen) c = 0 ∧
          isDelimiter c = true) := by
        rintro ⟨hbrackets, hparens, hd⟩
        have hno := not_mem_of_isDelimiter hd
        simp only [List.mem_cons, List.not_mem_nil, or_false, not_or] at hno
        refine huncut [] c rest rfl hd ?_
        simpa [bracketDepth, parenDepth, hno] using And.intro hbrackets hparens
      have hmore := ih (seen ++ [c]) hplain.2 fun before d after hrest hd => by
        rw [List.append_assoc]
        exact huncut (c :: before) d after (by rw [hrest]; rfl) hd
      rw [wordsFrom_cons (Ne.symm hplain.1), if_neg hjoins, ← depthOf_concat, ← parensOf_concat]
      simpa using hmore

lemma wordsFrom_of_isWord {cs : List Char} (h : IsWord cs) : wordsFrom 0 0 [] cs = [cs] := by
  have huncut : ∀ before c after, cs = before ++ c :: after → isDelimiter c = true →
      ¬ (depthOf before = 0 ∧ parensOf before = 0) := by
    rintro before c after rfl hc
    have hcut := h.uncut ⟨before.length, by simp⟩
    simp only [Fin.getElem_fin, List.getElem_append_right (Nat.le_refl _), Nat.sub_self,
      List.getElem_cons_zero, List.take_left] at hcut
    exact hcut hc
  have hword := wordsFrom_of_uncut [] h.plain huncut
  have hne : cs.reverse ≠ [] := by simpa using h.ne_nil
  rw [List.nil_append, finishWord, if_neg (by simpa using hne), List.reverse_reverse] at hword
  exact hword

/-- The words around a word are those of the two sides. -/
lemma wordsFrom_around {a t b : List Char} {d e : Char} (hd : isDelimiter d = true)
    (he : isDelimiter e = true) (hdepths : depthsBehind 0 0 a = (0, 0)) (hend : endsHiding a = false)
    (ht : IsWord t) :
    wordsFrom 0 0 [] (a ++ d :: (t ++ e :: b)) = wordsFrom 0 0 [] a ++ ([t] ++ wordsFrom 0 0 [] b) := by
  have htdepths : depthsBehind 0 0 t = (0, 0) := by
    rw [depthsBehind_of_plain ht.plain]
    exact Prod.ext ht.brackets ht.parens
  rw [wordsFrom_append hd hdepths hend,
    wordsFrom_append he htdepths (endsHiding_of_plain ht.plain), wordsFrom_of_isWord ht]

/-! ## The candidates of a line -/

/-- **A word between delimiters is found independently of its neighbours.**  In front of the first
delimiter no bracket and no parenthesis is open and no backslash hides it; what stands behind the second
one is arbitrary.  Then the candidates of the line are those of the text in front, the word if it could be
a class name, and those of the text behind, in this order. -/
theorem extract_around {a t b : String} {d e : Char} (hd : isDelimiter d = true)
    (he : isDelimiter e = true) (hdepths : depthsBehind 0 0 a.toList = (0, 0))
    (hend : endsHiding a.toList = false) (ht : IsWord t.toList) :
    extract (a.push d ++ t.push e ++ b)
      = extract a ++ (if isPlausible t.toList then [t] else []) ++ extract b := by
  have hline : (a.push d ++ t.push e ++ b).toList = a.toList ++ d :: (t.toList ++ e :: b.toList) := by
    simp
  have hword : [t.toList].filter isPlausible = if isPlausible t.toList then [t.toList] else [] := by
    simp [List.filter_singleton]
  rw [extract, hline, wordsFrom_around hd he hdepths hend ht, List.filter_append, List.filter_append,
    hword, List.map_append, List.map_append, ← List.append_assoc, ← extract, ← extract]
  split_ifs <;> simp

/-- In front of the word stand an arbitrary value and a hidden bracket, behind it brackets that do not
match; the word has a delimiter in its own brackets. -/
theorem extract_around_brackets :
    isDelimiter '"' = true ∧ isDelimiter '>' = true ∧
      depthsBehind 0 0 "w-[a b] \\[q".toList = (0, 0) ∧ endsHiding "w-[a b] \\[q".toList = false ∧
      IsWord "grid-[1fr,2fr]".toList ∧
      extract "w-[a b] \\[q\"grid-[1fr,2fr]>c] [d e" = ["[q", "grid-[1fr,2fr]", "c]"] := by
  have hword : IsWord "grid-[1fr,2fr]".toList := by decide +kernel
  have hline := extract_around (a := "w-[a b] \\[q") (b := "c] [d e") (show isDelimiter '"' = true by decide)
    (show isDelimiter '>' = true by decide) (by decide) (by decide) hword
  have hfront : extract "w-[a b] \\[q" = ["[q"] := by decide +kernel
  have hback : extract "c] [d e" = ["c]"] := by decide +kernel
  rw [hfront, hback, if_pos (by decide +kernel)] at hline
  exact ⟨by decide, by decide, by decide, by decide, hword, hline⟩

end UtilityCss.Candidate
