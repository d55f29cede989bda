import Mathlib
import ShaderVariants.Glsl.Statement

/-!
# Statements on one line

Up to runs of spaces and line breaks the text of a statement does not depend on its depth, nor on
whether a body stands in the braces behind the head of a statement or on lines of its own.  It is
that of the statement written on a single line.

## Main definitions

* `collapse` — a text with every run of spaces and line breaks replaced by one space.
* `SameText` — two texts are the same up to such runs.
* `Statement.line` — a statement on a single line.

## Main results

* `SameText.append` — texts may be replaced in a longer text.
* `Statement.sameText_line` — **behind a space, the text of a statement is the same as its
  line**, at whatever depth.
-/

namespace ShaderVariants

namespace Glsl

/-! ### Runs of spaces and line breaks -/

/-- Spaces and line breaks. -/
def isBlank (c : Char) : Bool := c == ' ' || c == '\n'

/-- A character in front of a text, unless both are blank. -/
def squeeze (c : Char) (cs : List Char) : List Char :=
  if isBlank c then if cs.head? = some ' ' then cs else ' ' :: cs else c :: cs

/-- The text with every run of spaces and line breaks replaced by one space. -/
def collapse (cs : List Char) : List Char := cs.foldr squeeze []

/-- The texts are the same up to runs of spaces and line breaks. -/
structure SameText (a b : String) : Prop where
  collapse_eq : collapse a.toList = collapse b.toList

variable {a a' b b' c : String} {ch : Char} {cs w : List Char}

theorem squeeze_of_not_blank (h : isBlank ch = false) : squeeze ch cs = ch :: cs := by
  rw [squeeze, h, if_neg Bool.false_ne_true]

theorem squeeze_of_blank (h : isBlank ch = true) (cs : List Char) :
    squeeze ch cs = squeeze ' ' cs := by
  rw [squeeze, h, if_pos rfl]
  rfl

/-- Of two blanks in a row one is left. -/
theorem squeeze_squeeze (cs : List Char) : squeeze ' ' (squeeze ' ' cs) = squeeze ' ' cs := by
  have hblank : isBlank ' ' = true := rfl
  simp only [squeeze, hblank, if_true]
  split_ifs <;> simp_all

theorem foldr_squeeze_collapse (cs s : List Char) :
    (collapse cs).foldr squeeze s = cs.foldr squeeze s := by
  induction cs with
  | nil => rfl
  | cons ch cs ih =>
    rw [List.foldr_cons, ← ih]
    change (squeeze ch (collapse cs)).foldr squeeze s = _
    cases hblank : isBlank ch with
    | false => rw [squeeze_of_not_blank hblank, List.foldr_cons]
    | true =>
      rw [squeeze_of_blank hblank, squeeze_of_blank hblank]
      by_cases hhead : (collapse cs).head? = some ' '
      · obtain ⟨ds, hds⟩ := List.head?_eq_some_iff.mp hhead
        rw [hds, List.foldr_cons, squeeze_squeeze]
        rfl
      · have hfront : squeeze ' ' (collapse cs) = ' ' :: collapse cs := if_neg hhead
        rw [hfront, List.foldr_cons]

theorem collapse_append (cs ds : List Char) :
    collapse (cs ++ ds) = (collapse cs).foldr squeeze (collapse ds) := by
  rw [foldr_squeeze_collapse, collapse, List.foldr_append]
  rfl

namespace SameText

theorem refl (a : String) : SameText a a := ⟨rfl⟩

theorem symm (h : SameText a b) : SameText b a := ⟨h.collapse_eq.symm⟩

theorem trans (h : SameText a b) (h' : SameText b c) : SameText a c :=
  ⟨h.collapse_eq.trans h'.collapse_eq⟩

/-- Texts may be replaced in a longer text. -/
theorem append (h : SameText a a') (h' : SameText b b') : SameText (a ++ b) (a' ++ b') := by
  refine ⟨?_⟩
  rw [String.toList_append, String.toList_append, collapse_append, collapse_append,
    h.collapse_eq, h'.collapse_eq]

theorem append_right (h : SameText a a') (b : String) : SameText (a ++ b) (a' ++ b) :=
  h.append (refl b)

theorem append_left (a : String) (h : SameText b b') : SameText (a ++ b) (a ++ b') :=
  (refl a).append h

end SameText

/-- A line break may be replaced by a space. -/
theorem sameText_lineBreak : SameText "\n" " " := ⟨rfl⟩

/-- Spaces behind a space change nothing. -/
theorem sameText_indentation (depth : ℕ) : SameText (" " ++ indentation depth) " " := by
  have hlist : (indentation depth).toList = List.replicate (4 * depth) ' ' :=
    String.toList_ofList
  refine ⟨?_⟩
  rw [String.toList_append, hlist]
  induction 4 * depth with
  | zero => rfl
  | succ n ih =>
    rw [List.replicate_succ]
    exact (squeeze_squeeze _).trans ih

/-- Behind a space the indentation makes no difference. -/
theorem SameText.indent (h : SameText a b) (depth : ℕ) :
    SameText (" " ++ (indentation depth ++ a)) (" " ++ b) := by
  rw [← String.append_assoc]
  exact (sameText_indentation depth).append h

/-- A run of blanks at the front leaves a space there. -/
theorem head?_collapse_eq_space (cs : List Char) :
    (collapse cs).head? = some ' ' ↔ cs.head?.any isBlank = true := by
  cases cs with
  | nil => simp [collapse]
  | cons ch cs =>
    change (squeeze ch (collapse cs)).head? = some ' ' ↔ isBlank ch = true
    cases hblank : isBlank ch with
    | false =>
      have hne : ch ≠ ' ' := by rintro rfl; exact absurd hblank (by decide)
      simpa [squeeze_of_not_blank hblank] using hne
    | true =>
      rw [squeeze_of_blank hblank, squeeze, if_pos (by rfl)]
      split_ifs with hhead
      · simpa using hhead
      · simp

theorem SameText.collapse_behind (h : SameText (" " ++ a) (" " ++ b)) :
    collapse (' ' :: a.toList) = collapse (' ' :: b.toList) := by
  have hcollapse := h.collapse_eq
  rw [String.toList_append, String.toList_append] at hcollapse
  exact hcollapse

/-- The space at the front may be left out if both texts begin with a blank, or neither does. -/
theorem SameText.of_behind (h : SameText (" " ++ a) (" " ++ b))
    (hhead : a.toList.head?.any isBlank = b.toList.head?.any isBlank) : SameText a b := by
  have hcollapse : squeeze ' ' (collapse a.toList) = squeeze ' ' (collapse b.toList) :=
    h.collapse_behind
  have hblank : isBlank ' ' = true := rfl
  simp only [squeeze, hblank, if_true, head?_collapse_eq_space, hhead] at hcollapse
  refine ⟨?_⟩
  split_ifs at hcollapse
  · exact hcollapse
  · exact (List.cons_inj_right ' ').mp hcollapse

/-! ### Ends of texts -/

/-- The text ends with the other one. -/
def Ends (e t : String) : Prop := ∃ u, t = u ++ e

theorem Ends.of_append {e : String} (h : Ends e b) (a : String) : Ends e (a ++ b) := by
  obtain ⟨u, rfl⟩ := h
  exact ⟨a ++ u, (String.append_assoc).symm⟩

theorem Ends.ne_empty {e : String} (h : Ends e a) (he : e ≠ "") : a ≠ "" := by
  obtain ⟨u, rfl⟩ := h
  exact fun hempty => he (String.append_eq_empty_iff.mp hempty).2

/-- A line without its line break. -/
theorem dropLineBreak_append (u : String) : dropLineBreak (u ++ "\n") = u := by
  have hlist : (u ++ "\n").toList = u.toList ++ ['\n'] := String.toList_append
  rw [dropLineBreak, hlist, List.getLast?_concat, if_pos rfl, List.dropLast_concat,
    String.ofList_toList]

end Glsl

namespace Statement

open Glsl

/-! ### Lines -/

/-- The line of a body, or a semicolon if nothing is left of it. -/
def orEmpty (line : String) : String := if line.isEmpty then "; " else line

mutual

/-- The statement on a single line, with a space at the end unless it is empty. -/
def line (v : Valuation) : Statement → String
  | .empty => "; "
  | .declare ds => headText (.declare ds) ++ "; "
  | .expression e => e.text ++ "; "
  | .selection condition consequent none =>
    match condition.holds? v with
    | some true => consequent.line v
    | some false => ""
    | none => "if (" ++ condition.text ++ ") " ++ orEmpty (consequent.line v)
  | .selection condition consequent (some alternative) =>
    match condition.holds? v with
    | some true => consequent.line v
    | some false => alternative.line v
    | none =>
      "if (" ++ condition.text ++ ") " ++ orEmpty (consequent.line v) ++ "else " ++
        orEmpty (alternative.line v)
  | .switch value body => "switch (" ++ value.text ++ ") \x7b " ++ allLine v body ++ "\x7d "
  | .caseLabel value => "case " ++ value.text ++ ": "
  | .defaultLabel => "default: "
  | .forLoop start condition update body =>
    "for (" ++ start.headText ++ "; " ++ condition.text ++ "; " ++
      (update.map Expr.text).getD "" ++ ") " ++ orEmpty (body.line v)
  | .whileLoop condition body => "while (" ++ condition.text ++ ") " ++ orEmpty (body.line v)
  | .doWhile body condition =>
    "do " ++ orEmpty (body.line v) ++ "while (" ++ condition.text ++ "); "
  | .giveBack none => "return; "
  | .giveBack (some value) => "return " ++ value.text ++ "; "
  | .jump kind => kind.keyword ++ "; "
  | .scope body => "\x7b " ++ allLine v body ++ "\x7d "

/-- Statements on a single line. -/
def allLine (v : Valuation) : List Statement → String
  | [] => ""
  | s :: rest => s.line v ++ allLine v rest

end

variable {v : Valuation}

/-- Either nothing is written, or whole lines. -/
def Matched (text line : String) : Prop :=
  (text = "" ∧ line = "") ∨ (Ends "\n" text ∧ Ends " " line)

theorem orEmpty_of_ne_empty {l : String} (h : l ≠ "") : orEmpty l = l := by
  have hne : l.isEmpty = false := by simpa using h
  rw [orEmpty, hne, if_neg Bool.false_ne_true]

/-- A body ends with a space. -/
theorem Matched.ends_orEmpty {t l : String} (h : Matched t l) : Ends " " (orEmpty l) := by
  rcases h with ⟨-, rfl⟩ | ⟨-, h⟩
  · exact ⟨";", rfl⟩
  · rwa [orEmpty_of_ne_empty (h.ne_empty (by decide))]

theorem matched_text_line : ∀ (s : Statement) (depth : ℕ), Matched (s.text v depth) (s.line v)
  | .empty, _ => .inr ⟨.of_append ⟨";", rfl⟩ _, ⟨";", rfl⟩⟩
  | .declare _, _ => .inr ⟨.of_append ⟨";", rfl⟩ _, .of_append ⟨";", rfl⟩ _⟩
  | .expression _, _ => .inr ⟨.of_append ⟨";", rfl⟩ _, .of_append ⟨";", rfl⟩ _⟩
  | .selection condition consequent none, depth => by
    rw [text, line]
    match condition.holds? v with
    | some true => exact matched_text_line consequent depth
    | some false => exact .inl ⟨rfl, rfl⟩
    | none =>
      exact .inr ⟨.of_append ⟨"", rfl⟩ _,
        .of_append (matched_text_line consequent depth).ends_orEmpty _⟩
  | .selection condition consequent (some alternative), depth => by
    rw [text, line]
    match condition.holds? v with
    | some true => exact matched_text_line consequent depth
    | some false => exact matched_text_line alternative depth
    | none =>
      exact .inr ⟨.of_append ⟨"", rfl⟩ _,
        .of_append (matched_text_line alternative depth).ends_orEmpty _⟩
  | .switch _ _, _ => .inr ⟨.of_append ⟨"\x7d", rfl⟩ _, .of_append ⟨"\x7d", rfl⟩ _⟩
  | .caseLabel _, _ => .inr ⟨.of_append ⟨":", rfl⟩ _, .of_append ⟨":", rfl⟩ _⟩
  | .defaultLabel, _ => .inr ⟨.of_append ⟨"default:", rfl⟩ _, ⟨"default:", rfl⟩⟩
  | .forLoop _ _ _ body, depth =>
    .inr ⟨.of_append ⟨"", rfl⟩ _, .of_append (matched_text_line body depth).ends_orEmpty _⟩
  | .whileLoop _ body, depth =>
    .inr ⟨.of_append ⟨"", rfl⟩ _, .of_append (matched_text_line body depth).ends_orEmpty _⟩
  | .doWhile _ _, _ => .inr ⟨.of_append ⟨");", rfl⟩ _, .of_append ⟨");", rfl⟩ _⟩
  | .giveBack none, _ => .inr ⟨.of_append ⟨"return;", rfl⟩ _, ⟨"return;", rfl⟩⟩
  | .giveBack (some _), _ => .inr ⟨.of_append ⟨";", rfl⟩ _, .of_append ⟨";", rfl⟩ _⟩
  | .jump _, _ => .inr ⟨.of_append ⟨";", rfl⟩ _, .of_append ⟨";", rfl⟩ _⟩
  | .scope _, _ => .inr ⟨.of_append ⟨"\x7d", rfl⟩ _, .of_append ⟨"\x7d", rfl⟩ _⟩

/-! ### A text is the same as its line -/

/-- A statement that has braces is written as what is inside, between the braces. -/
theorem text_of_inside {s : Statement} {depth : ℕ} {t : String}
    (h : s.inside v (depth + 1) = some t) :
    s.text v depth =
      indentation depth ++ ("\x7b\n" ++ (t ++ (indentation depth ++ "\x7d\n"))) := by
  cases s with
  | scope body =>
    rw [inside, Option.some.injEq] at h
    subst h
    simp only [text, String.append_assoc]
  | _ => exact absurd h (by simp [inside])

/-- A body on lines of its own, or in braces, is the same as its line. -/
theorem sameText_bodyText {s : Statement}
    (h : ∀ depth, SameText (" " ++ s.text v depth) (" " ++ s.line v)) (depth : ℕ) :
    SameText
      (bodyText depth (s.inside v (depth + 1)) (fun _ => s.text v (depth + 1)) ++ " ")
      (" " ++ orEmpty (s.line v)) := by
  cases hinside : s.inside v (depth + 1) with
  | some t =>
    have hne : s.line v ≠ "" := by
      rcases matched_text_line s depth with ⟨htext, -⟩ | ⟨-, hline⟩
      · rw [text_of_inside hinside] at htext
        simp at htext
      · exact hline.ne_empty (by decide)
    rw [orEmpty_of_ne_empty hne]
    refine .trans ?_ (h depth)
    have hopen : " \x7b\n" = " " ++ "\x7b\n" := rfl
    have hclose : SameText ("\x7d" ++ " ") "\x7d\n" := sameText_lineBreak.symm.append_left "\x7d"
    rw [text_of_inside hinside, bodyText, hopen]
    refine .trans ?_ ((SameText.refl _).indent depth).symm
    simp only [String.append_assoc]
    exact .append_left _ (.append_left _ (.append_left _ (.append_left _ hclose)))
  | none =>
    -- the line break of a single statement is dropped, and the space behind the body replaces it
    rcases matched_text_line s (depth + 1) with ⟨htext, hline⟩ | ⟨⟨u, hu⟩, hline⟩
    · have hempty : singleBody (depth + 1) "" = indentation (depth + 1) ++ ";" := if_pos rfl
      have hsemicolon : ";" ++ " " = orEmpty "" := rfl
      rw [htext, hline, bodyText, hempty]
      simp only [String.append_assoc]
      rw [hsemicolon]
      exact (sameText_lineBreak.append_right _).trans ((SameText.refl _).indent (depth + 1))
    · rw [orEmpty_of_ne_empty (hline.ne_empty (by decide))]
      refine .trans ?_ (h (depth + 1))
      have hne : (u ++ "\n").isEmpty = false := by simp
      rw [bodyText, hu, singleBody, hne, if_neg Bool.false_ne_true, dropLineBreak_append,
        String.append_assoc]
      exact sameText_lineBreak.append (sameText_lineBreak.symm.append_left u)

/-- A body behind its head and in front of more text. -/
theorem sameText_around {b l p p' q q' : String} (hbody : SameText (b ++ " ") (" " ++ l))
    (hp : p' = p ++ " ") (hq : SameText q (" " ++ q')) :
    SameText (p ++ (b ++ q)) (p' ++ (l ++ q')) := by
  rw [hp, String.append_assoc]
  refine .append_left p (.trans (.append_left b hq) ?_)
  rw [← String.append_assoc, ← String.append_assoc]
  exact hbody.append_right q'

/-- A body behind its head and at the end of a line. -/
theorem sameText_behind {b l p p' : String} (hbody : SameText (b ++ " ") (" " ++ l))
    (hp : p' = p ++ " ") : SameText (p ++ (b ++ "\n")) (p' ++ l) := by
  rw [hp, String.append_assoc]
  exact .append_left p (.trans (.append_left b sameText_lineBreak) hbody)

/-- Statements in braces. -/
theorem sameText_braces {t k l p q r : String} (h : SameText (" " ++ (t ++ k)) (" " ++ l))
    (hp : p = r ++ "\n") (hq : q = r ++ " ") :
    SameText (p ++ (t ++ (k ++ "\x7d\n"))) (q ++ (l ++ "\x7d ")) := by
  have hclose : SameText "\x7d\n" "\x7d " := sameText_lineBreak.append_left "\x7d"
  rw [hp, hq, String.append_assoc, String.append_assoc]
  refine .append_left r (.trans (sameText_lineBreak.append_right _) ?_)
  have hall := h.append hclose
  simp only [String.append_assoc] at hall
  exact hall

mutual

/-- Behind a space, the text of a statement is the same as its line. -/
theorem sameText_line : ∀ (s : Statement) (depth : ℕ),
    SameText (" " ++ s.text v depth) (" " ++ s.line v)
  | .empty, depth => (sameText_lineBreak.append_left ";").indent depth
  | .declare ds, depth => by
    rw [text, line, String.append_assoc]
    exact .indent (.append_left _ (sameText_lineBreak.append_left ";")) depth
  | .expression e, depth => by
    rw [text, line, String.append_assoc]
    exact .indent (.append_left _ (sameText_lineBreak.append_left ";")) depth
  | .selection condition consequent none, depth => by
    rw [text, line]
    match condition.holds? v with
    | some true => exact sameText_line consequent depth
    | some false => exact .refl _
    | none =>
      have hbody := sameText_bodyText (sameText_line consequent) depth
      simp only [String.append_assoc]
      exact .indent (.append_left _ (.append_left _ (sameText_behind hbody rfl))) depth
  | .selection condition consequent (some alternative), depth => by
    rw [text, line]
    match condition.holds? v with
    | some true => exact sameText_line consequent depth
    | some false => exact sameText_line alternative depth
    | none =>
      have hbody := sameText_bodyText (sameText_line consequent) depth
      have helse : " " ++ "else " = " else" ++ " " := rfl
      have hother := sameText_behind (sameText_bodyText (sameText_line alternative) depth) helse
      rw [String.append_assoc] at hother
      simp only [String.append_assoc]
      exact .indent (.append_left _ (.append_left _ (sameText_around hbody rfl hother))) depth
  | .switch value body, depth => by
    have hbody := sameText_allLine body (depth + 1) depth
    simp only [text, line, String.append_assoc]
    exact .indent (.append_left _ (.append_left _
      (sameText_braces hbody (rfl : _ = ") \x7b" ++ _) rfl))) depth
  | .caseLabel value, depth => by
    rw [text, line, String.append_assoc, String.append_assoc]
    exact .indent (.append_left _ (.append_left _ (sameText_lineBreak.append_left ":"))) (depth - 1)
  | .defaultLabel, depth => (sameText_lineBreak.append_left "default:").indent (depth - 1)
  | .forLoop start condition update body, depth => by
    have hbody := sameText_bodyText (sameText_line body) depth
    simp only [text, line, String.append_assoc]
    exact .indent (.append_left _ (.append_left _ (.append_left _ (.append_left _
      (.append_left _ (.append_left _ (sameText_behind hbody rfl))))))) depth
  | .whileLoop condition body, depth => by
    have hbody := sameText_bodyText (sameText_line body) depth
    simp only [text, line, String.append_assoc]
    exact .indent (.append_left _ (.append_left _ (sameText_behind hbody rfl))) depth
  | .doWhile body condition, depth => by
    have hbody := sameText_bodyText (sameText_line body) depth
    have hend : SameText (" while (" ++ (condition.text ++ ");\n"))
        (" " ++ ("while (" ++ (condition.text ++ "); "))) :=
      .append_left " while (" (.append_left _ (sameText_lineBreak.append_left ");"))
    simp only [text, line, String.append_assoc]
    exact .indent (sameText_around hbody rfl hend) depth
  | .giveBack none, depth => (sameText_lineBreak.append_left "return;").indent depth
  | .giveBack (some value), depth => by
    rw [text, line, String.append_assoc, String.append_assoc]
    exact .indent (.append_left _ (.append_left _ (sameText_lineBreak.append_left ";"))) depth
  | .jump kind, depth => by
    rw [text, line, String.append_assoc]
    exact .indent (.append_left _ (sameText_lineBreak.append_left ";")) depth
  | .scope body, depth => by
    have hbody := sameText_allLine body (depth + 1) depth
    simp only [text, line, String.append_assoc]
    exact .indent (sameText_braces hbody (rfl : _ = "\x7b" ++ _) rfl) depth

/-- Statements, one below the other and with an indentation at the end. -/
theorem sameText_allLine : ∀ (body : List Statement) (depth k : ℕ),
    SameText (" " ++ (allText v depth body ++ indentation k)) (" " ++ allLine v body)
  | [], _, k => by
    rw [allText, allLine, String.empty_append]
    exact sameText_indentation k
  | s :: rest, depth, k => by
    have hs := sameText_line s depth
    have hrest := sameText_allLine rest depth k
    rw [allText, allLine]
    rcases matched_text_line s depth with ⟨htext, hline⟩ | ⟨-, ⟨u, hu⟩⟩
    · rw [htext, hline, String.empty_append, String.empty_append]
      exact hrest
    · rw [String.append_assoc, ← String.append_assoc]
      refine .trans (hs.append_right _) ?_
      rw [hu, String.append_assoc, String.append_assoc, String.append_assoc]
      exact .append_left " " (.append_left u hrest)

end

end Statement

end ShaderVariants
