import UtilityCss.Candidate.ClassName
import UtilityCss.Proofs.RoundTrip
import UtilityCss.Text.Utf8
import UtilityCss.Toml.Number

/-!
# Class names in selectors and back

An escaped class name can be read in two ways, and neither loses anything.

**As an identifier.**  `unescapeName` takes escapes for the characters they stand for, as readers of
selectors do, and finds the name: `unescapeName_escapeName`.  The characters that get a backslash are no
hexadecimal digits, so the backslash alone decides how they are read, and a hexadecimal escape ends in a
space of its own, which keeps it apart from a digit or a space of the name.

**As text of a stylesheet.**  Whatever the name holds, `takenUp_escapeName` says that the reader of
stylesheets takes it up as it stands: characters with a meaning of their own stand behind backslashes, and
behind the space of a hexadecimal escape there is never another blank.
-/

namespace UtilityCss.Candidate

open Toml (hexValue? digitsValue scalar?)

/-! ## Unescaping -/

/-- What follows a hexadecimal escape: one blank that ends it belongs to it. -/
def endEscape : List Char → List Char
  | [] => []
  | c :: rest => if c ∈ [' ', '\t', '\n', '\r', '\x0c'] then rest else c :: rest

/-- The hexadecimal digits of an escape behind its first; it has six at most. -/
def moreDigits (cs : List Char) : List Char :=
  (cs.take 5).takeWhile fun c => (hexValue? c).isSome

/-- The rest of an escape is no longer than the text, which is why unescaping ends. -/
lemma length_endEscape (cs : List Char) : (endEscape cs).length ≤ cs.length := by
  fun_cases endEscape cs <;> simp

/-- The characters that an identifier stands for.  A backslash in front of hexadecimal digits makes the
character with that code, in front of another character that character. -/
def unescapeName : List Char → List Char
  | [] => []
  | '\\' :: c :: rest =>
    if (hexValue? c).isSome then
      (scalar? (digitsValue 16 (c :: moreDigits rest))).getD Text.replacement ::
        unescapeName (endEscape (rest.drop (moreDigits rest).length))
    else c :: unescapeName rest
  | c :: rest => c :: unescapeName rest
termination_by cs => cs.length
decreasing_by
  · have := length_endEscape (rest.drop (moreDigits rest).length)
    simp only [List.length_drop, List.length_cons] at this ⊢
    omega
  · simp only [List.length_cons]
    omega
  · simp

/-- The class name that an identifier stands for. -/
def unescapeClassName (identifier : String) : String :=
  String.ofList (unescapeName identifier.toList)

/-- Outside escapes a character stands for itself. -/
lemma unescapeName_cons {c : Char} (hc : c ≠ '\\') (rest : List Char) :
    unescapeName (c :: rest) = c :: unescapeName rest := by
  rw [unescapeName]
  rintro d rest' rfl
  exact absurd rfl hc

/-! ## Escapes are undone -/

/-- A property of the ten digits, which are the only characters that are written by their code. -/
lemma of_isDigit {P : Char → Prop} [DecidablePred P]
    (hall : (['0', '1', '2', '3', '4', '5', '6', '7', '8', '9'].all fun d => decide (P d)) = true)
    {c : Char} (h : c.isDigit = true) : P c := by
  obtain ⟨hlow, hhigh⟩ : 48 ≤ c.toNat ∧ c.toNat ≤ 57 := by
    simpa [Char.isDigit, UInt32.le_iff_toNat_le] using h
  have hcode : ∀ n : Fin 58, 48 ≤ n.val →
      Char.ofNat n ∈ ['0', '1', '2', '3', '4', '5', '6', '7', '8', '9'] := by decide
  have hmem := hcode ⟨c.toNat, by omega⟩ hlow
  rw [Char.ofNat_toNat] at hmem
  exact of_decide_eq_true (List.all_eq_true.1 hall c hmem)

/-- The code of a digit is a three and the digit. -/
lemma escapeCode_of_isDigit {c : Char} (h : c.isDigit = true) : escapeCode c = ['\\', '3', c, ' '] :=
  of_isDigit (P := fun d => escapeCode d = ['\\', '3', d, ' ']) (by decide) h

/-- The space behind the code belongs to it, and what follows is not looked at. -/
lemma unescapeName_escapeCode {c : Char} (h : c.isDigit = true) (rest : List Char) :
    unescapeName (escapeCode c ++ rest) = c :: unescapeName rest := by
  have hdigit : (hexValue? c).isSome = true :=
    of_isDigit (P := fun d => (hexValue? d).isSome = true) (by decide) h
  have hvalue : (scalar? (digitsValue 16 ['3', c])).getD Text.replacement = c :=
    of_isDigit (P := fun d => (scalar? (digitsValue 16 ['3', d])).getD Text.replacement = d) (by decide) h
  have hmore : moreDigits (c :: ' ' :: rest) = [c] := by
    have hspace : ((hexValue? ' ').isSome = true) ↔ False := by decide
    simp [moreDigits, hdigit, hspace]
  rw [escapeCode_of_isDigit h]
  show unescapeName ('\\' :: '3' :: c :: ' ' :: rest) = _
  rw [unescapeName, if_pos (by decide), hmore, hvalue]
  simp [endEscape]

/-- A character that is escaped with a backslash alone is no hexadecimal digit. -/
lemma hexValue?_eq_none {c : Char} (h : isNameChar c = false) : hexValue? c = none := by
  have hcode : ∀ n : Fin 103, hexValue? (Char.ofNat n) = none ∨ isNameChar (Char.ofNat n) = true := by
    decide +kernel
  by_cases hlow : c.toNat < 103
  · have hc := hcode ⟨c.toNat, hlow⟩
    rw [Char.ofNat_toNat, h] at hc
    exact hc.resolve_right Bool.false_ne_true
  · -- The last hexadecimal digit has the code 102.
    simp only [hexValue?, Bool.and_eq_true, decide_eq_true_eq, Char.le_def, UInt32.le_iff_toNat_le]
    rw [if_neg, if_neg, if_neg] <;> simp <;> omega

/-- Whether or not a character was escaped, it is read back. -/
lemma unescapeName_escapeChar (c : Char) (rest : List Char) :
    unescapeName (escapeChar c ++ rest) = c :: unescapeName rest := by
  rw [escapeChar]
  split_ifs with hname
  · refine unescapeName_cons ?_ rest
    rintro rfl
    exact absurd hname (by decide)
  · show unescapeName ('\\' :: c :: rest) = _
    rw [unescapeName, hexValue?_eq_none (by simpa using hname), if_neg (by simp)]

lemma unescapeName_flatMap (cs : List Char) : unescapeName (cs.flatMap escapeChar) = cs := by
  induction cs with
  | nil => rw [List.flatMap_nil, unescapeName]
  | cons c cs ih => rw [List.flatMap_cons, unescapeName_escapeChar, ih]

lemma unescapeName_escapeName (cs : List Char) : unescapeName (escapeName cs) = cs := by
  fun_cases escapeName cs with
  | case1 c rest hdigit =>
      rw [unescapeName_cons (by decide), unescapeName_escapeCode hdigit, unescapeName_flatMap]
  | case2 c rest hdigit =>
      rw [unescapeName_cons (by decide), unescapeName_escapeChar, unescapeName_flatMap]
  | case3 c rest _ hdigit => rw [unescapeName_escapeCode hdigit, unescapeName_flatMap]
  | case4 c rest _ hdigit => rw [unescapeName_escapeChar, unescapeName_flatMap]
  | case5 => rw [unescapeName]

/-- **Escaping can be undone.**  Unescaping an escaped class name gives the name, so the class selectors
of two names are different. -/
theorem unescape_escapeClassName :
    (∀ name, unescapeClassName (escapeClassName name) = name) ∧
      ∀ a b, "." ++ escapeClassName a = "." ++ escapeClassName b ↔ a = b := by
  have hname : ∀ name, unescapeClassName (escapeClassName name) = name := by
    intro name
    rw [unescapeClassName, escapeClassName, String.toList_ofList, unescapeName_escapeName,
      String.ofList_toList]
  refine ⟨hname, fun a b => ⟨fun h => ?_, fun h => h ▸ rfl⟩⟩
  have hescaped : escapeClassName a = escapeClassName b := by
    have hlist := congrArg String.toList h
    rw [String.toList_append, String.toList_append, List.append_cancel_left_eq] at hlist
    exact String.toList_inj.1 hlist
  rw [← hname a, hescaped, hname b]

/-! ## Escaped names in stylesheets -/

/-- Behind some text and in front of anything but a blank, the reader of stylesheets takes the text up as it
stands. -/
structure TakenUp (text : List Char) : Prop where
  /-- The text does not begin with a blank. -/
  head : ∀ rest : List Char, rest.head?.any isGap = false → (text ++ rest).head?.any isGap = false
  leads : ∀ (o : Outline) (rest : List Char), o.current ≠ [] → rest.head?.any isGap = false →
    Leads o (text ++ rest) (o.typed text) rest

namespace TakenUp

lemma nil : TakenUp [] where
  head _ h := h
  leads o rest _ _ := Leads.refl o rest

/-- What is taken up in parts is taken up in whole. -/
lemma append {a b : List Char} (ha : TakenUp a) (hb : TakenUp b) : TakenUp (a ++ b) where
  head rest hrest := by
    rw [List.append_assoc]
    exact ha.head _ (hb.head rest hrest)
  leads o rest ho hrest := by
    have hfront := ha.leads o (b ++ rest) ho (hb.head rest hrest)
    have hback := hb.leads (o.typed a) rest (by simp [Outline.typed, ho]) hrest
    rw [Outline.typed_typed] at hback
    rw [List.append_assoc]
    exact hfront.trans hback

end TakenUp

/-- A character that may stand in an identifier has no meaning to the reader, whatever follows. -/
lemma not_mem_special {c : Char} (hc : isNameChar c = true) : c ∉ '/' :: ' ' :: Piece.special := by
  have hno : ('/' :: ' ' :: Piece.special).all (fun d => !isNameChar d) = true := by decide
  intro hmem
  have hspecial := List.all_eq_true.1 hno c hmem
  rw [hc] at hspecial
  exact Bool.false_ne_true hspecial

/-- A character of a name is no blank. -/
lemma isGap_of_isNameChar {c : Char} (hc : isNameChar c = true) : isGap c = false := by
  by_contra hgap
  rcases isGap_iff.1 (by simpa using hgap) with rfl | rfl | rfl <;>
    exact absurd hc (by decide)

/-- Behind other text, a character of a name is typed. -/
lemma leads_nameChar {o : Outline} (ho : o.current ≠ []) {c : Char} (hc : isNameChar c = true)
    (rest : List Char) : Leads o (c :: rest) (o.typed [c]) rest := by
  have hspecial := not_mem_special hc
  refine leads_plain (fun hmem => hspecial (by simp [hmem])) ⟨?_, ?_, ?_⟩ fun hnil => absurd hnil ho
  · rintro rfl
    exact absurd List.mem_cons_self hspecial
  · simp [isGap_of_isNameChar hc]
  · simp [ho]

lemma takenUp_nameChar {c : Char} (hc : isNameChar c = true) : TakenUp [c] :=
  ⟨fun _ _ => by simp [isGap_of_isNameChar hc], fun _ rest ho _ => leads_nameChar ho hc rest⟩

/-- A backslash with the character it hides, whichever that is. -/
lemma takenUp_escaped (c : Char) : TakenUp ['\\', c] :=
  ⟨fun _ _ => rfl, fun o rest _ _ => leads_escaped o c rest⟩

/-- An escaped character is taken up with its backslash. -/
lemma takenUp_escapeChar (c : Char) : TakenUp (escapeChar c) := by
  rw [escapeChar]
  split_ifs with hname
  · exact takenUp_nameChar hname
  · exact takenUp_escaped c

lemma takenUp_flatMap (cs : List Char) : TakenUp (cs.flatMap escapeChar) := by
  induction cs with
  | nil => exact .nil
  | cons c cs ih => exact (takenUp_escapeChar c).append ih

/-- The space behind the code is kept, since it follows a digit and no blank follows it. -/
lemma takenUp_escapeCode {c : Char} (hc : c.isDigit = true) : TakenUp (escapeCode c) := by
  have hname : isNameChar c = true := by simp [isNameChar, Char.isAlphanum, hc]
  rw [escapeCode_of_isDigit hc]
  refine ⟨fun _ _ => rfl, fun o rest ho hrest => ?_⟩
  have htyped : ∀ text, (o.typed text).current ≠ [] := fun text => by simp [Outline.typed, ho]
  have hdigits : Leads o ('\\' :: '3' :: c :: ' ' :: rest) (o.typed ['\\', '3', c]) (' ' :: rest) := by
    have hdigit := leads_nameChar (htyped ['\\', '3']) hname (' ' :: rest)
    rw [Outline.typed_typed] at hdigit
    exact (leads_escaped o '3' _).trans hdigit
  have hspace : Leads (o.typed ['\\', '3', c]) (' ' :: rest) (o.typed ['\\', '3', c, ' ']) rest := by
    have hplain := leads_plain (o := o.typed ['\\', '3', c]) (c := ' ') (by decide)
      ⟨by simp, fun _ => hrest, by simp⟩ fun hnil => absurd hnil (htyped _)
    rwa [Outline.typed_typed] at hplain
  exact hdigits.trans hspace

/-- The characters of an escaped name. -/
lemma takenUp_escapeName (cs : List Char) : TakenUp (escapeName cs) := by
  have hminus : TakenUp ['-'] := takenUp_nameChar (by decide)
  fun_cases escapeName cs with
  | case1 c rest hdigit => exact hminus.append ((takenUp_escapeCode hdigit).append (takenUp_flatMap rest))
  | case2 c rest hdigit => exact hminus.append ((takenUp_escapeChar c).append (takenUp_flatMap rest))
  | case3 c rest _ hdigit => exact (takenUp_escapeCode hdigit).append (takenUp_flatMap rest)
  | case4 c rest _ hdigit => exact (takenUp_escapeChar c).append (takenUp_flatMap rest)
  | case5 => exact .nil

/-- **A class selector with an empty block.**  It is read as one rule without children, whatever the name
holds; the selector is what was written, up to the blanks at its end. -/
theorem readStylesheet_escapeClassName (file : Nat) (name : String) :
    (readStylesheet file ("." ++ escapeClassName name ++ "\x7b\x7d")).map Node.clearSpansAll =
      .ok [.rule (String.ofList (Text.trimEnd ("." ++ escapeClassName name).toList)) [] true none] := by
  have hselector : ("." ++ escapeClassName name).toList = '.' :: escapeName name.toList := by
    rw [String.toList_append, escapeClassName, String.toList_ofList]
    simp
  have htext : "." ++ escapeClassName name ++ "\x7b\x7d"
      = String.ofList ('.' :: (escapeName name.toList ++ ['{', '}'])) := by
    rw [← String.toList_inj, String.toList_append, hselector]
    simp
  have hdot : Leads .empty ('.' :: (escapeName name.toList ++ ['{', '}'])) (Outline.empty.typed ['.'])
      (escapeName name.toList ++ ['{', '}']) :=
    leads_plain (by decide) ⟨by simp, by simp [isGap], by simp⟩ fun _ => rfl
  have hname := (takenUp_escapeName name.toList).leads (Outline.empty.typed ['.']) ['{', '}']
    (by simp [Outline.typed]) rfl
  rw [Outline.typed_typed] at hname
  have hblock := (leads_opening (o := Outline.empty) rfl ('.' :: escapeName name.toList) ['}']).trans
    (leads_closing rfl (by simp [Outline.enter]) [])
  have htrim : Text.trim ('.' :: escapeName name.toList)
      = Text.trimEnd ('.' :: escapeName name.toList) := by
    have hblank : Text.isBlank '.' = false := by decide
    simp [Text.trim, Text.trimStart, hblank]
  have hleave : ((Outline.empty.enter (String.ofList (Text.trim ('.' :: escapeName name.toList)))).leave)
      = Outline.empty.attach
        (.rule (String.ofList (Text.trimEnd ('.' :: escapeName name.toList))) [] true none) := by
    rw [htrim]
    rfl
  rw [hleave] at hblock
  rw [htext, hselector, readStylesheet_of_leads (hdot.trans (hname.trans hblock))]
  rfl

end UtilityCss.Candidate
