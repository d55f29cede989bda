import Mathlib
import ShaderVariants.Options.Declared
import ShaderVariants.Proofs.Glsl.Line
import ShaderVariants.Proofs.Glsl.Token

/-!
# What generated statements are read as

The text of a statement without its runs of blanks is a list of words.  A reader puts them
together again, and where it finds an `else` it takes it for that of the nearest `if` which has
none yet.  Braces are written for scopes only, so a branch that ends with such an `if` loses it to
an `else` behind the branch.

## Main definitions

* `Glsl.Word`, `Glsl.spaced` — what stands between blanks, and the text made of it.
* `Statement.Plain` — statements of names, scopes, `while` and selections that are not folded.
* `Glsl.Takes` — reading a statement off the front of some words.
* `Glsl.ReadsStatement` — a text is read as a statement.
* `Statement.regrouped` — the statement with every `else` at the nearest `if` without one.
* `Statement.Settled` — no branch in front of an `else` ends with such an `if`.

## Main results

* `Glsl.Takes.unique` — words are read in one way.
* `Statement.Settled.takes` — a settled statement is read off its words.
* `Statement.Plain.reads_iff_regrouped` — **a text is read as the regrouped statement**, which
  is the statement itself exactly if it is settled.
* `Statement.outerElse_misread` — the `else` of an outer selection is read as that of an inner one.
-/

namespace ShaderVariants

namespace Glsl

/-! ### Words -/

/-- What stands between two blanks. -/
inductive Word where
  | ifWord
  | elseWord
  | whileWord
  | opening
  | closing
  /-- The condition of a selection or a loop, in its parentheses. -/
  | condition (name : String)
  /-- A statement that is a name, with its semicolon. -/
  | statement (name : String)
  deriving DecidableEq

namespace Word

/-- The spelling of the word. -/
def text : Word → String
  | .ifWord => "if"
  | .elseWord => "else"
  | .whileWord => "while"
  | .opening => "\x7b"
  | .closing => "\x7d"
  | .condition name => "(" ++ name ++ ")"
  | .statement name => name ++ ";"

/-- There is no blank in the word. -/
def Solid (w : Word) : Prop := ∀ ch ∈ w.text.toList, isBlank ch = false

/-- The name in the word. -/
def name? : Word → Option String
  | .condition name | .statement name => some name
  | _ => none

/-- Nothing but the name in a word can have blanks. -/
theorem solid_of_name {w : Word}
    (h : ∀ x, w.name? = some x → ∀ ch ∈ x.toList, isBlank ch = false) : w.Solid := by
  cases w with
  | condition x =>
    have hopening : isBlank '(' = false := by decide
    have hclosing : isBlank ')' = false := by decide
    simpa [Solid, text, or_imp, forall_and, hopening, hclosing] using h x rfl
  | statement x =>
    have hsemicolon : isBlank ';' = false := by decide
    simpa [Solid, text, or_imp, forall_and, hsemicolon] using h x rfl
  | _ => simp [Solid, text, isBlank]

/-- The last character of the word. -/
def last : Word → Char
  | .ifWord => 'f'
  | .elseWord | .whileWord => 'e'
  | .opening => '\x7b'
  | .closing => '\x7d'
  | .condition _ => ')'
  | .statement _ => ';'

theorem getLast?_text (w : Word) : w.text.toList.getLast? = some w.last := by
  cases w with
  | condition name =>
    rw [text, String.toList_append]
    exact List.getLast?_concat
  | _ => simp [text, last]

/-- Words are told apart by their last characters, and those that end alike by the rest. -/
theorem text_injective : Function.Injective text := by
  intro w w' h
  have hlast : w.last = w'.last :=
    Option.some.inj (by rw [← getLast?_text, ← getLast?_text, h])
  cases w <;> cases w' <;> simp_all [text, last]

theorem text_ne_empty (w : Word) : w.text ≠ "" := by
  cases w <;> simp [text]

end Word

/-- The words, with a space behind each. -/
def spaced : List Word → String
  | [] => ""
  | w :: ws => w.text ++ (" " ++ spaced ws)

theorem spaced_append (ws ws' : List Word) : spaced (ws ++ ws') = spaced ws ++ spaced ws' := by
  induction ws with
  | nil => rw [List.nil_append, spaced, String.empty_append]
  | cons w ws ih =>
    rw [List.cons_append, spaced, spaced, ih, String.append_assoc, String.append_assoc]

theorem toList_spaced_cons (w : Word) (ws : List Word) :
    (spaced (w :: ws)).toList = w.text.toList ++ ' ' :: (spaced ws).toList := by
  rw [spaced, String.toList_append, String.toList_append]
  rfl

/-- Characters that are not blank are kept. -/
theorem collapse_append_of_solid {cs : List Char} (h : ∀ ch ∈ cs, isBlank ch = false)
    (ds : List Char) : collapse (cs ++ ds) = cs ++ collapse ds := by
  induction cs with
  | nil => rfl
  | cons ch cs ih =>
    change squeeze ch (collapse (cs ++ ds)) = _
    rw [squeeze_of_not_blank (h ch List.mem_cons_self),
      ih fun d hd => h d (List.mem_cons_of_mem ch hd), List.cons_append]

/-- Between words there is one space already. -/
theorem collapse_spaced {ws : List Word} (h : ∀ w ∈ ws, w.Solid) :
    collapse (' ' :: (spaced ws).toList) = ' ' :: (spaced ws).toList := by
  induction ws with
  | nil => rfl
  | cons w ws ih =>
    have hw := h w List.mem_cons_self
    have hrest := ih fun u hu => h u (List.mem_cons_of_mem w hu)
    -- the space in front is kept because the word begins with another character
    obtain ⟨ch, cs, hcs⟩ := List.exists_cons_of_ne_nil
      (fun hnil => w.text_ne_empty (String.toList_eq_nil_iff.mp hnil))
    have hch : ch ≠ ' ' := by
      rintro rfl
      exact absurd (hw ' ' (by simp [hcs])) (by decide)
    change squeeze ' ' (collapse _) = _
    rw [toList_spaced_cons, collapse_append_of_solid hw, hrest, hcs]
    have hblank : isBlank ' ' = true := rfl
    rw [squeeze, hblank, if_pos rfl]
    exact if_neg (by simpa using hch)

/-- Words between spaces are told apart. -/
theorem eq_of_spaced : ∀ {ws ws' : List Word}, (∀ w ∈ ws, w.Solid) → (∀ w ∈ ws', w.Solid) →
    (spaced ws).toList = (spaced ws').toList → ws = ws'
  | [], [], _, _, _ => rfl
  | [], w :: ws, _, _, h => by
    rw [toList_spaced_cons] at h
    simp [spaced] at h
  | w :: ws, [], _, _, h => by
    rw [toList_spaced_cons] at h
    simp [spaced] at h
  | w :: ws, w' :: ws', hws, hws', h => by
    have htake : ∀ {u : Word} (cs : List Char), u.Solid →
        (u.text.toList ++ ' ' :: cs).takeWhile (! isBlank ·) = u.text.toList := by
      intro u cs hu
      rw [List.takeWhile_append_of_pos (by simpa [Word.Solid] using hu)]
      exact List.append_nil _
    rw [toList_spaced_cons, toList_spaced_cons] at h
    have htext : w.text.toList = w'.text.toList := by
      rw [← htake (spaced ws).toList (hws w List.mem_cons_self), h,
        htake _ (hws' w' List.mem_cons_self)]
    have hrest : (spaced ws).toList = (spaced ws').toList := by
      rw [htext, List.append_cancel_left_eq] at h
      exact (List.cons_inj_right ' ').mp h
    rw [Word.text_injective (String.toList_injective htext),
      eq_of_spaced (fun u hu => hws u (List.mem_cons_of_mem w hu))
        (fun u hu => hws' u (List.mem_cons_of_mem w' hu)) hrest]

/-- **A text without its runs of blanks has one list of words.** -/
theorem eq_of_sameText_spaced {ws ws' : List Word} (hws : ∀ w ∈ ws, w.Solid)
    (hws' : ∀ w ∈ ws', w.Solid) (h : SameText (" " ++ spaced ws) (" " ++ spaced ws')) :
    ws = ws' := by
  have hcollapse := h.collapse_behind
  rw [collapse_spaced hws, collapse_spaced hws'] at hcollapse
  exact eq_of_spaced hws hws' ((List.cons_inj_right ' ').mp hcollapse)

/-! ### Reading words -/

mutual

/-- `Takes ws s rest`: a reader takes the statement `s` off the front of `ws` and leaves `rest`.
A selection goes on for as long as an `else` follows, so that an `else` belongs to the nearest
`if` without one. -/
inductive Takes : List Word → Statement → List Word → Prop
  | expression {x : String} {rest : List Word} :
    Takes (.statement x :: rest) (.expression (.var x)) rest
  | scope {ws : List Word} {body : List Statement} {rest : List Word} :
    TakesAll ws body (.closing :: rest) → Takes (.opening :: ws) (.scope body) rest
  | whileLoop {c : String} {ws : List Word} {body : Statement} {rest : List Word} :
    Takes ws body rest → Takes (.whileWord :: .condition c :: ws) (.whileLoop (.var c) body) rest
  | short {c : String} {ws : List Word} {s : Statement} {rest : List Word} :
    Takes ws s rest → rest.head? ≠ some .elseWord →
    Takes (.ifWord :: .condition c :: ws) (.selection (.var c) s none) rest
  | long {c : String} {ws : List Word} {s t : Statement} {mid rest : List Word} :
    Takes ws s (.elseWord :: mid) → Takes mid t rest →
    Takes (.ifWord :: .condition c :: ws) (.selection (.var c) s (some t)) rest

/-- The same for statements one after another. -/
inductive TakesAll : List Word → List Statement → List Word → Prop
  | nil {ws : List Word} : TakesAll ws [] ws
  | cons {ws : List Word} {s : Statement} {mid : List Word} {body : List Statement}
    {rest : List Word} : Takes ws s mid → TakesAll mid body rest → TakesAll ws (s :: body) rest

end

/-- The text is read as the statement: it is made of words, up to runs of blanks, which a reader
takes for the statement. -/
def ReadsStatement (text : String) (s : Statement) : Prop :=
  ∃ ws : List Word, (∀ w ∈ ws, w.Solid) ∧ SameText (" " ++ text) (" " ++ spaced ws) ∧ Takes ws s []

mutual

/-- Words are read in one way. -/
theorem Takes.unique : ∀ {ws rest rest' : List Word} {s s' : Statement}, Takes ws s rest →
    Takes ws s' rest' → s = s' ∧ rest = rest'
  | _, _, _, _, _, .expression, .expression => ⟨rfl, rfl⟩
  | _, _, _, _, _, .scope h, .scope h' => by
    obtain ⟨rfl, rfl⟩ := TakesAll.unique h h'
    exact ⟨rfl, rfl⟩
  | _, _, _, _, _, .whileLoop h, .whileLoop h' => by
    obtain ⟨rfl, rfl⟩ := Takes.unique h h'
    exact ⟨rfl, rfl⟩
  | _, _, _, _, _, .short h _, .short h' _ => by
    obtain ⟨rfl, rfl⟩ := Takes.unique h h'
    exact ⟨rfl, rfl⟩
  -- the word behind the branch tells the two kinds of selection apart
  | _, _, _, _, _, .short h hrest, .long h' _ => by
    obtain ⟨rfl, rfl⟩ := Takes.unique h h'
    exact absurd rfl hrest
  | _, _, _, _, _, .long h _, .short h' hrest => by
    obtain ⟨rfl, rfl⟩ := Takes.unique h h'
    exact absurd rfl hrest
  | _, _, _, _, _, .long hs ht, .long hs' ht' => by
    obtain ⟨rfl, hmid⟩ := Takes.unique hs hs'
    obtain rfl := List.tail_eq_of_cons_eq hmid
    obtain ⟨rfl, rfl⟩ := Takes.unique ht ht'
    exact ⟨rfl, rfl⟩

/-- Words up to a closing brace are read in one way. -/
theorem TakesAll.unique : ∀ {ws rest rest' : List Word} {body body' : List Statement},
    TakesAll ws body (.closing :: rest) → TakesAll ws body' (.closing :: rest') →
    body = body' ∧ rest = rest'
  | _, _, _, _, _, .nil, .nil => ⟨rfl, rfl⟩
  | _, _, _, _, _, .nil, .cons h' _ => by cases h'
  | _, _, _, _, _, .cons h _, .nil => by cases h
  | _, _, _, _, _, .cons h hs, .cons h' hs' => by
    obtain ⟨rfl, rfl⟩ := Takes.unique h h'
    obtain ⟨rfl, rfl⟩ := TakesAll.unique hs hs'
    exact ⟨rfl, rfl⟩

end

end Glsl

namespace Statement

open Glsl

/-! ### Words of statements -/

/-- A statement made of names, scopes, `while` and selections none of which is folded. -/
inductive Plain (v : Valuation) : Statement → Prop
  | expression {x : String} : isIdentifier x = true → Plain v (.expression (.var x))
  | scope {body : List Statement} : (∀ s ∈ body, Plain v s) → Plain v (.scope body)
  | whileLoop {c : String} {body : Statement} : isIdentifier c = true → Plain v body →
    Plain v (.whileLoop (.var c) body)
  | short {c : String} {s : Statement} : isIdentifier c = true → v c = none → Plain v s →
    Plain v (.selection (.var c) s none)
  | long {c : String} {s t : Statement} : isIdentifier c = true → v c = none → Plain v s →
    Plain v t → Plain v (.selection (.var c) s (some t))

mutual

/-- The words of a plain statement. -/
def words : Statement → List Word
  | .expression (.var x) => [.statement x]
  | .scope body => .opening :: (allWords body ++ [.closing])
  | .whileLoop (.var c) body => .whileWord :: .condition c :: body.words
  | .selection (.var c) s none => .ifWord :: .condition c :: s.words
  | .selection (.var c) s (some t) => .ifWord :: .condition c :: (s.words ++ .elseWord :: t.words)
  | _ => []

/-- The words of several statements. -/
def allWords : List Statement → List Word
  | [] => []
  | s :: rest => s.words ++ allWords rest

end

variable {v : Valuation} {a b s : Statement}

/-! ### Statements with an open end -/

/-- The statement ends with an `if` that has no `else` yet. -/
def endsOpen : Statement → Bool
  | .selection _ _ none => true
  | .selection _ _ (some t) => t.endsOpen
  | .whileLoop _ s => s.endsOpen
  | _ => false

/-- The statement with an `else` branch at the last `if` that has none. -/
def attach : Statement → Statement → Statement
  | .selection c s none, b =>
    if s.endsOpen then .selection c (s.attach b) none else .selection c s (some b)
  | .selection c s (some t), b => .selection c s (some (t.attach b))
  | .whileLoop c s, b => .whileLoop c (s.attach b)
  | s, _ => s

mutual

/-- The statement with every `else` at the nearest `if` that has none. -/
def regrouped : Statement → Statement
  | .selection c s none => .selection c s.regrouped none
  | .selection c s (some t) =>
    if s.regrouped.endsOpen then .selection c (s.regrouped.attach t.regrouped) none
    else .selection c s.regrouped (some t.regrouped)
  | .whileLoop c s => .whileLoop c s.regrouped
  | .scope body => .scope (allRegrouped body)
  | s => s

/-- The same for several statements. -/
def allRegrouped : List Statement → List Statement
  | [] => []
  | s :: rest => s.regrouped :: allRegrouped rest

end

/-- A statement of names no branch of which ends with an open `if` in front of an `else`. -/
inductive Settled : Statement → Prop
  | expression {x : String} : Settled (.expression (.var x))
  | scope {body : List Statement} : (∀ s ∈ body, Settled s) → Settled (.scope body)
  | whileLoop {c : String} {body : Statement} : Settled body → Settled (.whileLoop (.var c) body)
  | short {c : String} {s : Statement} : Settled s → Settled (.selection (.var c) s none)
  | long {c : String} {s t : Statement} : Settled s → s.endsOpen = false → Settled t →
    Settled (.selection (.var c) s (some t))

/-! ### Reading the words of a settled statement -/

/-- A statement begins with a word that is not an `else`. -/
theorem Settled.exists_words (h : Settled s) : ∃ w ws, s.words = w :: ws ∧ w ≠ .elseWord := by
  cases h with
  | expression => exact ⟨_, _, words.eq_1 _, by simp⟩
  | scope hbody => exact ⟨_, _, words.eq_2 _, by simp⟩
  | whileLoop hbody => exact ⟨_, _, words.eq_3 _ _, by simp⟩
  | short hs => exact ⟨_, _, words.eq_4 _ _, by simp⟩
  | long hs hclosed ht => exact ⟨_, _, words.eq_5 _ _ _, by simp⟩

/-- No `else` follows a statement in braces. -/
theorem head?_allWords {body : List Statement} (h : ∀ s ∈ body, Settled s) (rest : List Word) :
    (allWords body ++ .closing :: rest).head? ≠ some .elseWord := by
  cases body with
  | nil => simp [allWords]
  | cons s body =>
    obtain ⟨w, ws, hwords, hw⟩ := (h s List.mem_cons_self).exists_words
    simpa [allWords, hwords] using hw

theorem takesAll_of_forall {body : List Statement} (hbody : ∀ s ∈ body, Settled s)
    (h : ∀ s ∈ body, ∀ rest : List Word,
      (s.endsOpen = true → rest.head? ≠ some .elseWord) → Takes (s.words ++ rest) s rest)
    (rest : List Word) : TakesAll (allWords body ++ .closing :: rest) body (.closing :: rest) := by
  induction body with
  | nil => exact .nil
  | cons s body ih =>
    have htail : ∀ t ∈ body, Settled t := fun t ht => hbody t (List.mem_cons_of_mem s ht)
    have hs := h s List.mem_cons_self _ fun _ => head?_allWords htail rest
    rw [allWords, List.append_assoc]
    exact .cons hs (ih htail fun t ht => h t (List.mem_cons_of_mem s ht))

/-- **The words of a settled statement are read as it**, if no `else` follows an open end. -/
theorem Settled.takes (h : Settled s) : ∀ rest : List Word,
    (s.endsOpen = true → rest.head? ≠ some .elseWord) → Takes (s.words ++ rest) s rest := by
  induction h with
  | expression => exact fun rest _ => .expression
  | @scope body hbody ih =>
    intro rest _
    have hall := takesAll_of_forall hbody ih rest
    rw [words, List.cons_append, List.append_assoc]
    exact .scope hall
  | whileLoop hbody ih =>
    intro rest hrest
    exact .whileLoop (ih rest hrest)
  | short hs ih =>
    intro rest hrest
    have hhead := hrest rfl
    exact .short (ih rest fun _ => hhead) hhead
  | @long c s t hs hclosed ht ihs iht =>
    intro rest hrest
    -- the branch is closed, so the `else` behind it is not taken for one of its own
    have hmid := ihs (.elseWord :: (t.words ++ rest)) (by simp [hclosed])
    rw [words, List.cons_append, List.cons_append, List.append_assoc]
    exact .long hmid (iht rest hrest)

/-! ### Regrouping -/

/-- An `else` behind an open end is read as attached to it. -/
theorem words_attach (ha : Settled a) (hopen : a.endsOpen = true) (b : Statement) :
    (a.attach b).words = a.words ++ .elseWord :: b.words := by
  induction ha with
  | expression => cases hopen
  | scope hbody ih => cases hopen
  | whileLoop hbody ih =>
    rw [attach, words, words, ih hopen]
    rfl
  | @short c s hs ih =>
    rw [attach]
    split_ifs with hs'
    · rw [words, words, ih hs']
      rfl
    · rw [words, words]
      rfl
  | @long c s t hs hclosed ht ihs iht =>
    rw [attach, words, words, iht hopen]
    simp

theorem Settled.attach (ha : Settled a) (hb : Settled b) : Settled (a.attach b) := by
  induction ha with
  | expression => exact .expression
  | scope hbody ih => exact .scope hbody
  | whileLoop hbody ih => exact .whileLoop ih
  | @short c s hs ih =>
    rw [Statement.attach]
    split_ifs with hopen
    · exact .short ih
    · exact .long hs (Bool.eq_false_iff.mpr hopen) hb
  | long hs hclosed ht ihs iht => exact .long hs hclosed iht

theorem mem_allRegrouped {body : List Statement} :
    s ∈ allRegrouped body ↔ ∃ t ∈ body, t.regrouped = s := by
  induction body with
  | nil => simp [allRegrouped]
  | cons t body ih => simp [allRegrouped, ih, eq_comm]

theorem Plain.settled_regrouped (h : Plain v s) : Settled s.regrouped := by
  induction h with
  | expression hx => exact .expression
  | scope hbody ih =>
    rw [regrouped]
    refine .scope fun s hs => ?_
    obtain ⟨t, ht, rfl⟩ := mem_allRegrouped.mp hs
    exact ih t ht
  | whileLoop hc hbody ih => exact .whileLoop ih
  | short hc hv hs ih => exact .short ih
  | long hc hv hs ht ihs iht =>
    rw [regrouped]
    split_ifs with hopen
    · exact .short (ihs.attach iht)
    · exact .long ihs (Bool.eq_false_iff.mpr hopen) iht

theorem allWords_allRegrouped {body : List Statement}
    (h : ∀ s ∈ body, s.regrouped.words = s.words) :
    allWords (allRegrouped body) = allWords body := by
  induction body with
  | nil => rfl
  | cons s body ih =>
    rw [allRegrouped, allWords, allWords, h s List.mem_cons_self,
      ih fun t ht => h t (List.mem_cons_of_mem s ht)]

/-- Regrouping changes no word. -/
theorem Plain.words_regrouped (h : Plain v s) : s.regrouped.words = s.words := by
  induction h with
  | expression hx => rfl
  | @scope body hbody ih =>
    rw [regrouped, words, words, allWords_allRegrouped ih]
  | whileLoop hc hbody ih => rw [regrouped, words, words, ih]
  | short hc hv hs ih => rw [regrouped, words, words, ih]
  | long hc hv hs ht ihs iht =>
    rw [regrouped]
    split_ifs with hopen
    · rw [words, words, words_attach hs.settled_regrouped hopen, ihs, iht]
    · rw [words, words, ihs, iht]

theorem allRegrouped_eq {body : List Statement} (h : ∀ s ∈ body, s.regrouped = s) :
    allRegrouped body = body := by
  induction body with
  | nil => rfl
  | cons s body ih =>
    rw [allRegrouped, h s List.mem_cons_self, ih fun t ht => h t (List.mem_cons_of_mem s ht)]

/-- A settled statement is left as it is. -/
theorem Settled.regrouped_eq (h : Settled s) : s.regrouped = s := by
  induction h with
  | expression => rfl
  | scope hbody ih => rw [regrouped, allRegrouped_eq ih]
  | whileLoop hbody ih => rw [regrouped, ih]
  | short hs ih => rw [regrouped, ih]
  | long hs hclosed ht ihs iht => rw [regrouped, ihs, iht, hclosed, if_neg Bool.false_ne_true]

/-! ### The words of a text -/

theorem mem_allWords {body : List Statement} {w : Word} :
    w ∈ allWords body ↔ ∃ s ∈ body, w ∈ s.words := by
  induction body with
  | nil => simp [allWords]
  | cons s body ih => simp [allWords, ih]

/-- A name has no blank. -/
theorem solid_of_isIdentifier {x : String} (h : isIdentifier x = true) :
    ∀ ch ∈ x.toList, isBlank ch = false := by
  obtain ⟨c, cs, hlist, -, hall⟩ := exists_of_isIdentifier h
  rw [hlist]
  intro ch hch
  have hname := hall ch hch
  refine Bool.eq_false_iff.mpr fun hblank => ?_
  obtain rfl | rfl : ch = ' ' ∨ ch = '\n' := by simpa [isBlank] using hblank
  · exact absurd hname (by decide)
  · exact absurd hname (by decide)

/-- The names in words are those in the statement. -/
theorem Plain.isIdentifier_of_mem (h : Plain v s) {w : Word} (hw : w ∈ s.words) {x : String}
    (hx : w.name? = some x) : isIdentifier x = true := by
  induction h with
  | expression hname =>
    obtain rfl : w = .statement _ := by simpa [words] using hw
    obtain rfl := Option.some.inj hx
    exact hname
  | scope hbody ih =>
    obtain rfl | hw | rfl : w = .opening ∨ w ∈ allWords _ ∨ w = .closing := by
      simpa [words] using hw
    · cases hx
    · obtain ⟨s, hs, hw⟩ := mem_allWords.mp hw
      exact ih s hs hw
    · cases hx
  | whileLoop hc hbody ih =>
    obtain rfl | rfl | hw : w = .whileWord ∨ w = .condition _ ∨ w ∈ words _ := by
      simpa [words] using hw
    · cases hx
    · obtain rfl := Option.some.inj hx
      exact hc
    · exact ih hw
  | short hc hv hs ih =>
    obtain rfl | rfl | hw : w = .ifWord ∨ w = .condition _ ∨ w ∈ words _ := by
      simpa [words] using hw
    · cases hx
    · obtain rfl := Option.some.inj hx
      exact hc
    · exact ih hw
  | @long c s t hc hv hs ht ihs iht =>
    obtain rfl | rfl | hw | rfl | hw :
        w = .ifWord ∨ w = .condition c ∨ w ∈ s.words ∨ w = .elseWord ∨ w ∈ t.words := by
      simpa [words] using hw
    · cases hx
    · obtain rfl := Option.some.inj hx
      exact hc
    · exact ihs hw
    · cases hx
    · exact iht hw

theorem Plain.solid (h : Plain v s) : ∀ w ∈ s.words, w.Solid := fun _ hw =>
  Word.solid_of_name fun _ hx => solid_of_isIdentifier (h.isIdentifier_of_mem hw hx)

/-- A condition that is a name without a value is not known. -/
theorem holds?_var {c : String} (h : v c = none) : (Expr.var c).holds? v = none := by
  rw [Expr.holds?, Expr.eval, h]
  rfl

/-- Words are not empty, so no semicolon is put in their place. -/
theorem orEmpty_spaced {ws : List Word} (h : ws ≠ []) : orEmpty (spaced ws) = spaced ws := by
  obtain ⟨w, rest, rfl⟩ := List.exists_cons_of_ne_nil h
  refine orEmpty_of_ne_empty fun hempty => ?_
  rw [spaced, String.append_eq_empty_iff] at hempty
  exact w.text_ne_empty hempty.1

theorem Plain.words_ne_nil (h : Plain v s) : s.words ≠ [] := by
  obtain ⟨w, ws, hwords, -⟩ := h.settled_regrouped.exists_words
  rw [← h.words_regrouped, hwords]
  exact List.cons_ne_nil w ws

theorem allLine_eq_spaced {body : List Statement}
    (h : ∀ s ∈ body, s.line v = spaced s.words) : allLine v body = spaced (allWords body) := by
  induction body with
  | nil => rfl
  | cons s body ih =>
    rw [allLine, allWords, spaced_append, h s List.mem_cons_self,
      ih fun t ht => h t (List.mem_cons_of_mem s ht)]

/-- The line of a plain statement is made of its words. -/
theorem Plain.line_eq (h : Plain v s) : s.line v = spaced s.words := by
  induction h with
  | expression hx =>
    rw [line, words, spaced, spaced, Word.text, String.append_assoc]
    rfl
  | scope hbody ih =>
    rw [line, words, allLine_eq_spaced ih, spaced, spaced_append, String.append_assoc]
    rfl
  | whileLoop hc hbody ih =>
    rw [line, words, ih, orEmpty_spaced hbody.words_ne_nil]
    exact String.toList_injective (by simp [spaced, Word.text, Expr.text])
  | short hc hv hs ih =>
    rw [line, holds?_var hv, words, ih, orEmpty_spaced hs.words_ne_nil]
    exact String.toList_injective (by simp [spaced, Word.text, Expr.text])
  | long hc hv hs ht ihs iht =>
    rw [line, holds?_var hv, words, ihs, iht, orEmpty_spaced hs.words_ne_nil,
      orEmpty_spaced ht.words_ne_nil]
    exact String.toList_injective (by simp [spaced, spaced_append, Word.text, Expr.text])

/-- Behind a space, the text of a plain statement is that of its words. -/
theorem Plain.sameText_spaced (h : Plain v s) (depth : ℕ) :
    SameText (" " ++ s.text v depth) (" " ++ spaced s.words) :=
  h.line_eq ▸ sameText_line s depth

theorem head?_indentation {u : String} (h : u.toList.head?.any isBlank = false) (depth : ℕ) :
    (indentation depth ++ u).toList.head?.any isBlank = decide (0 < depth) := by
  cases depth with
  | zero => simpa [indentation] using h
  | succ depth =>
    have hlist : (indentation (depth + 1)).toList = ' ' :: List.replicate (4 * depth + 3) ' ' :=
      String.toList_ofList
    rw [String.toList_append, hlist]
    simp [isBlank]

/-- Only the indentation is blank at the front of a text. -/
theorem Plain.head?_text (h : Plain v s) (depth : ℕ) :
    (s.text v depth).toList.head?.any isBlank = decide (0 < depth) := by
  cases h with
  | @expression x hx =>
    obtain ⟨c, cs, hlist, -⟩ := exists_of_isIdentifier hx
    have hc := solid_of_isIdentifier hx c (by rw [hlist]; exact List.mem_cons_self)
    rw [text, Expr.text, String.append_assoc]
    exact head?_indentation (by simp [hlist, hc]) depth
  | scope hbody =>
    simp only [text, String.append_assoc]
    exact head?_indentation (by simp [isBlank]) depth
  | whileLoop hc hbody =>
    simp only [text, String.append_assoc]
    exact head?_indentation (by simp [isBlank]) depth
  | short hc hv hs =>
    simp only [text, holds?_var hv, String.append_assoc]
    exact head?_indentation (by simp [isBlank]) depth
  | long hc hv hs ht =>
    simp only [text, holds?_var hv, String.append_assoc]
    exact head?_indentation (by simp [isBlank]) depth

/-! ### What a text is read as -/

theorem Plain.takes_regrouped (h : Plain v a) : Takes a.words a.regrouped [] := by
  have htakes := h.settled_regrouped.takes [] (by simp)
  rwa [h.words_regrouped, List.append_nil] at htakes

/-- A text is read as the regrouped statement and as nothing else. -/
theorem Plain.readsStatement_iff (h : Plain v a) (depth : ℕ) :
    ReadsStatement (a.text v depth) s ↔ s = a.regrouped := by
  have hsame := h.sameText_spaced depth
  constructor
  · rintro ⟨ws, hsolid, htext, htakes⟩
    obtain rfl : ws = a.words := eq_of_sameText_spaced hsolid h.solid (htext.symm.trans hsame)
    exact (htakes.unique h.takes_regrouped).1
  · rintro rfl
    exact ⟨a.words, h.solid, hsame, h.takes_regrouped⟩

theorem Plain.regrouped_eq_iff (h : Plain v a) : a.regrouped = a ↔ Settled a :=
  ⟨fun heq => heq ▸ h.settled_regrouped, Settled.regrouped_eq⟩

/-- Texts are the same where they are made of the same words. -/
theorem Plain.sameText_iff_words (ha : Plain v a) (hb : Plain v b) (depth : ℕ) :
    SameText (a.text v depth) (b.text v depth) ↔ a.words = b.words := by
  have hsame := ha.sameText_spaced depth
  have hsame' := hb.sameText_spaced depth
  constructor
  · intro h
    exact eq_of_sameText_spaced ha.solid hb.solid
      (hsame.symm.trans ((h.append_left " ").trans hsame'))
  · intro h
    rw [← h] at hsame'
    exact .of_behind (hsame.trans hsame'.symm) (by rw [ha.head?_text, hb.head?_text])

/-- **A statement is read as itself exactly if it is settled.**  Its text is read as the regrouped
statement and as nothing else, and two statements have the same text, up to runs of blanks, exactly
if regrouping makes them the same. -/
theorem Plain.reads_iff_regrouped (ha : Plain v a) (depth : ℕ) :
    (∀ s, ReadsStatement (a.text v depth) s ↔ s = a.regrouped) ∧
      (a.regrouped = a ↔ Settled a) ∧
      ∀ b, Plain v b →
        (SameText (a.text v depth) (b.text v depth) ↔ a.regrouped = b.regrouped) := by
  refine ⟨fun s => ha.readsStatement_iff depth, ha.regrouped_eq_iff, fun b hb => ?_⟩
  constructor
  · intro h
    have hwords := (ha.sameText_iff_words hb depth).mp h
    have htakes := hb.takes_regrouped
    rw [← hwords] at htakes
    exact (ha.takes_regrouped.unique htakes).1
  · intro h
    rw [ha.sameText_iff_words hb, ← ha.words_regrouped, h, hb.words_regrouped]

/-- A selection with an `else` behind a loop whose body is another selection. -/
def loopBranch : Statement :=
  .scope [.selection (.var "c")
    (.whileLoop (.var "d") (.selection (.var "e") (.expression (.var "x")) none))
    (some (.expression (.var "y"))), .expression (.var "z")]

/-- The same with the `else` inside the loop. -/
def loopElse : Statement :=
  .scope [.selection (.var "c")
    (.whileLoop (.var "d")
      (.selection (.var "e") (.expression (.var "x")) (some (.expression (.var "y")))))
    none, .expression (.var "z")]

theorem loopBranch_read :
    Plain Valuation.none loopBranch ∧ Plain Valuation.none loopElse ∧
      loopBranch.regrouped = loopElse ∧ loopElse.regrouped = loopElse ∧
      (∀ s, ReadsStatement (loopBranch.text Valuation.none 1) s ↔ s = loopBranch.regrouped) ∧
      (loopBranch.regrouped = loopBranch ↔ Settled loopBranch) ∧
      (SameText (loopBranch.text Valuation.none 1) (loopElse.text Valuation.none 1) ↔
        loopBranch.regrouped = loopElse.regrouped) := by
  have hx : Plain Valuation.none (.expression (.var "x")) := .expression rfl
  have hy : Plain Valuation.none (.expression (.var "y")) := .expression rfl
  have hz : Plain Valuation.none (.expression (.var "z")) := .expression rfl
  have hbranch : Plain Valuation.none loopBranch :=
    .scope (List.forall_mem_cons.mpr
      ⟨.long rfl rfl (.whileLoop rfl (.short rfl rfl hx)) hy, List.forall_mem_singleton.mpr hz⟩)
  have helse : Plain Valuation.none loopElse :=
    .scope (List.forall_mem_cons.mpr
      ⟨.short rfl rfl (.whileLoop rfl (.long rfl rfl hx hy)), List.forall_mem_singleton.mpr hz⟩)
  obtain ⟨hreads, hsettled, hsame⟩ := hbranch.reads_iff_regrouped 1
  exact ⟨hbranch, helse, rfl, rfl, hreads, hsettled, hsame loopElse helse⟩

/-- A selection with an `else` behind another selection. -/
def outerElse : Statement :=
  .selection (.var "c") (.selection (.var "d") (.expression (.var "x")) none)
    (some (.expression (.var "y")))

/-- The same with the `else` inside. -/
def innerElse : Statement :=
  .selection (.var "c")
    (.selection (.var "d") (.expression (.var "x")) (some (.expression (.var "y")))) none

/-- The `else` of the outer selection is read as that of the inner one. -/
theorem outerElse_misread :
    Plain Valuation.none outerElse ∧ Plain Valuation.none innerElse ∧ outerElse ≠ innerElse ∧
      SameText (outerElse.text Valuation.none 0) (innerElse.text Valuation.none 0) ∧
      ¬ ReadsStatement (outerElse.text Valuation.none 0) outerElse ∧
      ReadsStatement (outerElse.text Valuation.none 0) innerElse := by
  have houter : Plain Valuation.none outerElse :=
    .long rfl rfl (.short rfl rfl (.expression rfl)) (.expression rfl)
  have hinner : Plain Valuation.none innerElse :=
    .short rfl rfl (.long rfl rfl (.expression rfl) (.expression rfl))
  have hregrouped : outerElse.regrouped = innerElse := rfl
  have hne : outerElse ≠ innerElse := by simp [outerElse, innerElse]
  refine ⟨houter, hinner, hne, (houter.sameText_iff_words hinner 0).mpr rfl, ?_, ?_⟩
  · rwa [houter.readsStatement_iff, hregrouped]
  · rw [houter.readsStatement_iff, hregrouped]

end Statement

end ShaderVariants
