import Mathlib
import ShaderVariants.Proofs.Glsl.Token

/-!
# The grammar of expressions

Each rule says at which level an expression stands: the lower, the tighter it binds.  An
operand of a binary operator binds at least as tightly as the operator on its left, and more
tightly on its right.  Assignments are left out.

That tokens can be read in one way only is shown with a reader that goes through them once.
It keeps the constructs it is inside of on a stack, and completes those that bind more tightly
than the operator it comes to.  What the grammar derives, the reader reads.

## Main definitions

* `Derives` — the grammar.
* `Reads` — the tokens of a text are derived by the grammar.
* `Frame`, `Reader`, `Reader.step` — the reader.

## Main results

* `Derives.reads` — the reader reads what the grammar derives, on any stack with room for it.
* `Derives.unique` — **the grammar is unambiguous.**
-/

namespace ShaderVariants

namespace BinaryOp

/-- Whether the operator changes its left operand. -/
def isAssignment : BinaryOp → Bool
  | .assign | .addAssign | .subAssign | .mulAssign | .divAssign => true
  | _ => false

/-- All operators but the comma bind more tightly than a conditional expression. -/
theorem precedence_cases (op : BinaryOp) :
    (0 ≤ op.precedence ∧ op.precedence ≤ 11) ∨ op.precedence = 1000 := by
  cases op <;> decide

end BinaryOp

namespace Glsl

/-! ### Rules -/

/-- The tokens are an expression that stands at the level. -/
inductive Derives : Int → List Token → Expr → Prop where
  | name (name : String) : Derives (-3) [.name name] (.var name)
  | number (value : ℕ) : Derives (-3) [.number value] (.int value)
  | group {ts : List Token} {e : Expr} : Derives 1000 ts e →
      Derives (-3) (.symbol "(" :: (ts ++ [.symbol ")"])) e
  /-- Arguments are no comma expressions: the commas are between them. -/
  | call {ts : List Token} {f : Expr} (arguments : List (List Token × Expr)) : Derives (-2) ts f →
      (∀ a ∈ arguments, Derives 20 a.1 a.2) →
      Derives (-2) (ts ++ .symbol "(" ::
          ([.symbol ","].intercalate (arguments.map (·.1)) ++ [.symbol ")"]))
        (.call f (arguments.map (·.2)))
  | index {ts us : List Token} {a e : Expr} : Derives (-2) ts a → Derives 1000 us e →
      Derives (-2) (ts ++ .symbol "[" :: (us ++ [.symbol "]"])) (.index a e)
  | member {ts : List Token} {e : Expr} (name : String) : Derives (-2) ts e →
      Derives (-2) (ts ++ [.symbol ".", .name name]) (.member e name)
  | postfixed {ts : List Token} {e : Expr} (op : PostfixOp) : Derives (-2) ts e →
      Derives (-2) (ts ++ [.symbol op.symbol]) (.postfixed op e)
  | unary {ts : List Token} {e : Expr} (op : UnaryOp) : Derives (-1) ts e →
      Derives (-1) (.symbol op.symbol :: ts) (.unary op e)
  | binary {p : Int} {ts us : List Token} {l r : Expr} (op : BinaryOp) :
      op.isAssignment = false → Derives op.precedence ts l → p < op.precedence →
      Derives p us r → Derives op.precedence (ts ++ .symbol op.symbol :: us) (.binary op l r)
  | conditional {p : Int} {ts us vs : List Token} {c a b : Expr} : p < 20 → Derives p ts c →
      Derives 1000 us a → Derives 20 vs b →
      Derives 20 (ts ++ .symbol "?" :: (us ++ .symbol ":" :: vs)) (.conditional c a b)
  /-- An expression may stand where a looser one could. -/
  | loosen {p q : Int} {ts : List Token} {e : Expr} : p ≤ q → Derives p ts e → Derives q ts e

/-- The text is read as the expression. -/
def Reads (text : String) (e : Expr) : Prop :=
  ∃ ts, lex text.toList = some ts ∧ Derives 1000 ts e

/-! ### The reader -/

/-- A construct that the reader is inside of, with what has been read of it. -/
inductive Frame where
  | unary (op : UnaryOp)
  | binary (op : BinaryOp) (left : Expr)
  | group
  | call (function : Expr) (arguments : List Expr)
  | index (array : Expr)
  | consequent (condition : Expr)
  | alternative (condition consequent : Expr)

namespace Frame

/-- Whether an operand at the level may come next. -/
def Admits (m : Int) : Frame → Prop
  | .unary _ => m ≤ -1
  | .binary op _ => m < op.precedence
  | .alternative _ _ => m ≤ 20
  | .call _ _ => m < 1000
  | .group | .index _ | .consequent _ => True

/-- Whether the construct ends in front of an operator at the level. -/
def endsAt (q : Int) : Frame → Bool
  | .unary _ => -1 ≤ q
  | .binary op _ => op.precedence ≤ q
  | .alternative _ _ => 20 ≤ q
  | .group | .call _ _ | .index _ | .consequent _ => false

/-- The construct with its last operand. -/
def complete (e : Expr) : Frame → Expr
  | .unary op => .unary op e
  | .binary op left => .binary op left e
  | .alternative condition a => .conditional condition a e
  | .group | .call _ _ | .index _ | .consequent _ => e

end Frame

/-- Completes the constructs that end in front of an operator at the level. -/
def reduce (q : Int) (e : Expr) : List Frame → Expr × List Frame
  | [] => (e, [])
  | f :: fs => if f.endsAt q then reduce q (f.complete e) fs else (e, f :: fs)

/-- What may come next, and the constructs that the reader is inside of, innermost first. -/
inductive Reader where
  /-- An operand has to follow. -/
  | operand (frames : List Frame)
  /-- An operand was read. -/
  | operator (e : Expr) (frames : List Frame)
  /-- The name of a member has to follow. -/
  | member (e : Expr) (frames : List Frame)

namespace Reader

/-- The reader after a token behind an operand. -/
def continued (e : Expr) (fs : List Frame) (s : String) : Option Reader :=
  match s with
  | "(" => some (.operand (.call e [] :: fs))
  | "[" => some (.operand (.index e :: fs))
  | "." => some (.member e fs)
  | ")" =>
    match reduce 1000 e fs with
    | (e, .group :: fs) => some (.operator e fs)
    | (e, .call f es :: fs) => some (.operator (.call f (es ++ [e])) fs)
    | _ => none
  | "]" =>
    match reduce 1000 e fs with
    | (e, .index a :: fs) => some (.operator (.index a e) fs)
    | _ => none
  | "?" =>
    let (e, fs) := reduce 19 e fs
    some (.operand (.consequent e :: fs))
  | ":" =>
    match reduce 1000 e fs with
    | (e, .consequent c :: fs) => some (.operand (.alternative c e :: fs))
    | _ => none
  | "," =>
    match reduce 1000 e fs with
    | (e, .call f es :: fs) => some (.operand (.call f (es ++ [e]) :: fs))
    | (e, fs) => some (.operand (.binary .comma e :: fs))
  | s =>
    match (Named.all : List PostfixOp).find? (·.symbol = s) with
    | some op => some (.operator (.postfixed op e) fs)
    | none =>
      match (Named.all : List BinaryOp).find? (·.symbol = s) with
      | some op =>
        let (e, fs) := reduce op.precedence e fs
        some (.operand (.binary op e :: fs))
      | none => none

/-- The reader after one more token. -/
def step : Reader → Token → Option Reader
  | .operand fs, .name name => some (.operator (.var name) fs)
  | .operand fs, .number value => some (.operator (.int value) fs)
  | .operand fs, .symbol "(" => some (.operand (.group :: fs))
  | .operand (.call f [] :: fs), .symbol ")" => some (.operator (.call f []) fs)
  | .operand fs, .symbol s =>
    ((Named.all : List UnaryOp).find? (·.symbol = s)).map fun op => .operand (.unary op :: fs)
  | .operator e fs, .symbol s => continued e fs s
  | .member e fs, .name name => some (.operator (.member e name) fs)
  | _, _ => none

/-- The reader after some tokens. -/
def run (r : Reader) (ts : List Token) : Option Reader := ts.foldlM step r

theorem run_cons (r : Reader) (t : Token) (ts : List Token) :
    r.run (t :: ts) = (r.step t).bind (·.run ts) := rfl

theorem run_append (r : Reader) (ts us : List Token) :
    r.run (ts ++ us) = (r.run ts).bind (·.run us) := List.foldlM_append

end Reader

/-! ### Room on the stack -/

variable {m p q : Int} {e : Expr} {f : Frame} {fs : List Frame}

/-- An operand at the level may come next, inside of the innermost construct. -/
def Room (m : Int) (fs : List Frame) : Prop := ∀ f ∈ fs.head?, f.Admits m

theorem Room.cons (h : f.Admits m) : Room m (f :: fs) := by
  intro g hg
  exact Option.some.inj hg ▸ h

theorem Room.admits (h : Room m (f :: fs)) : f.Admits m := h f rfl

theorem Room.mono (h : Room m fs) (hle : p ≤ m) : Room p fs := by
  intro f hf
  have hadmits := h f hf
  cases f <;> simp only [Frame.Admits] at hadmits ⊢ <;> omega

/-- An operator that may occur in an operand at the level does not end the construct around
the operand. -/
theorem reduce_of_room (h : Room m fs) (hle : q ≤ m) (hunary : q ≠ -1)
    (hconditional : q ≠ 20) : reduce q e fs = (e, fs) := by
  cases fs with
  | nil => rfl
  | cons f fs =>
    have hadmits := h.admits
    have hends : ¬ f.endsAt q = true := by
      cases f <;> simp only [Frame.Admits, Frame.endsAt, decide_eq_true_eq] at hadmits ⊢
      case unary => omega
      case binary => omega
      case alternative => omega
      all_goals exact Bool.false_ne_true
    rw [reduce, if_neg hends]

/-- Nothing ends in front of what binds most tightly. -/
theorem reduce_tightest (e : Expr) (fs : List Frame) : reduce (-2) e fs = (e, fs) := by
  cases fs with
  | nil => rfl
  | cons f fs =>
    have hends : ¬ f.endsAt (-2) = true := by
      cases f with
      | binary op left =>
        have hcases := op.precedence_cases
        simp only [Frame.endsAt, decide_eq_true_eq]
        omega
      | _ => exact Bool.false_ne_true
    rw [reduce, if_neg hends]

/-! ### The reader reads what the grammar derives -/

namespace Reader

/-- The reader has read the expression at the level, and completes it in front of whatever
may come next. -/
def HasRead (r : Option Reader) (m : Int) (e : Expr) (fs : List Frame) : Prop :=
  ∃ x gs, r = some (.operator x gs) ∧ ∀ q, m ≤ q → reduce q x gs = reduce q e fs

/-- What binds most tightly is complete already. -/
theorem HasRead.eq {r : Option Reader} (h : HasRead r m e fs) (hm : m ≤ -2) :
    r = some (.operator e fs) := by
  obtain ⟨x, gs, hr, hreduce⟩ := h
  have heq := hreduce (-2) hm
  rw [reduce_tightest, reduce_tightest] at heq
  obtain ⟨rfl, rfl⟩ := Prod.mk.inj heq
  exact hr

theorem hasRead_self (m : Int) (e : Expr) (fs : List Frame) :
    HasRead (some (.operator e fs)) m e fs := ⟨e, fs, rfl, fun _ _ => rfl⟩

/-- The last operand of a construct completes it in front of whatever ends it. -/
theorem HasRead.completed {r : Option Reader} (h : HasRead r p e (f :: fs)) (hle : p ≤ m)
    (hf : ∀ q, m ≤ q → f.endsAt q = true) : HasRead r m (f.complete e) fs := by
  obtain ⟨x, gs, hr, hreduce⟩ := h
  refine ⟨x, gs, hr, fun q hq => ?_⟩
  rw [hreduce q (hle.trans hq), reduce, if_pos (hf q hq)]

theorem step_postfixed (op : PostfixOp) :
    step (.operator e fs) (.symbol op.symbol) = some (.operator (.postfixed op e) fs) := by
  cases op <;> rfl

theorem step_unary (op : UnaryOp) :
    step (.operand fs) (.symbol op.symbol) = some (.operand (.unary op :: fs)) := by
  cases op <;> rfl

/-- In front of a binary operator, what binds more tightly is complete. -/
theorem step_binary {op : BinaryOp} (hop : op.isAssignment = false) {x l : Expr}
    {gs : List Frame} (h : reduce op.precedence x gs = (l, fs))
    (hroom : Room op.precedence fs) :
    step (.operator x gs) (.symbol op.symbol) = some (.operand (.binary op l :: fs)) := by
  cases op with
  | comma =>
    -- it does not come behind an argument, which is no comma expression
    change reduce 1000 x gs = _ at h
    simp only [step, BinaryOp.symbol, continued, h]
    split
    · next heq =>
      cases heq
      exact absurd (show (1000 : Int) < 1000 from hroom.admits) (lt_irrefl _)
    · next heq =>
      cases heq
      rfl
  | assign => cases hop
  | addAssign => cases hop
  | subAssign => cases hop
  | mulAssign => cases hop
  | divAssign => cases hop
  | _ =>
    change some (Reader.operand (.binary _ (reduce _ x gs).1 :: (reduce _ x gs).2)) = _
    rw [h]

section Inside

variable {x a c f : Expr} {es : List Expr} {gs : List Frame}

/-- In front of a token that ends the operand of a bracket or of a choice, it only matters what
has been read so far when it is complete. -/
theorem step_congr (x' : Expr) (gs' : List Frame) {s : String} (hs : s ∈ [")", "]", ":", ","])
    (h : reduce 1000 x gs = reduce 1000 x' gs') :
    step (.operator x gs) (.symbol s) = step (.operator x' gs') (.symbol s) := by
  simp only [List.mem_cons, List.not_mem_nil, or_false] at hs
  obtain rfl | rfl | rfl | rfl := hs <;> simp only [step, continued, h]

theorem step_group (h : reduce 1000 x gs = (e, .group :: fs)) :
    step (.operator x gs) (.symbol ")") = some (.operator e fs) :=
  step_congr e (.group :: fs) (by simp) h

theorem step_call (h : reduce 1000 x gs = (e, .call f es :: fs)) :
    step (.operator x gs) (.symbol ")") = some (.operator (.call f (es ++ [e])) fs) :=
  step_congr e (.call f es :: fs) (by simp) h

theorem step_argument (h : reduce 1000 x gs = (e, .call f es :: fs)) :
    step (.operator x gs) (.symbol ",") = some (.operand (.call f (es ++ [e]) :: fs)) :=
  step_congr e (.call f es :: fs) (by simp) h

theorem step_index (h : reduce 1000 x gs = (e, .index a :: fs)) :
    step (.operator x gs) (.symbol "]") = some (.operator (.index a e) fs) :=
  step_congr e (.index a :: fs) (by simp) h

theorem step_consequent (h : reduce 1000 x gs = (e, .consequent c :: fs)) :
    step (.operator x gs) (.symbol ":") = some (.operand (.alternative c e :: fs)) :=
  step_congr e (.consequent c :: fs) (by simp) h

end Inside

/-- Inside of brackets, everything is complete in front of the token that ends the operand. -/
theorem HasRead.run_append {r r' : Reader} {ts us : List Token} {t : Token}
    (h : HasRead (r.run ts) m e (f :: fs)) (hm : m ≤ 1000) (hf : f.endsAt 1000 = false)
    (hstep : ∀ x gs, reduce 1000 x gs = (e, f :: fs) → step (.operator x gs) t = some r') :
    r.run (ts ++ t :: us) = r'.run us := by
  obtain ⟨x, gs, hrun, hreduce⟩ := h
  have hcomplete : reduce 1000 x gs = (e, f :: fs) := by
    rw [hreduce 1000 hm, reduce, hf, if_neg Bool.false_ne_true]
  rw [Reader.run_append, hrun, Option.bind_some, run_cons, hstep x gs hcomplete,
    Option.bind_some]

end Reader

open Reader

/-- The reader goes through the arguments of a call and comes to its end. -/
theorem run_arguments {f : Expr} {fs : List Frame} (rest : List (List Token × Expr)) :
    ∀ (a : List Token × Expr) (done : List Expr),
    (∀ b ∈ a :: rest, ∀ gs, Room 20 gs → HasRead ((Reader.operand gs).run b.1) 20 b.2 gs) →
    (Reader.operand (.call f done :: fs)).run
        ([.symbol ","].intercalate ((a :: rest).map (·.1)) ++ [.symbol ")"]) =
      some (.operator (.call f (done ++ (a :: rest).map (·.2))) fs) := by
  have hroom : ∀ done, Room 20 (.call f done :: fs) := fun done =>
    Room.cons (show (20 : Int) < 1000 by decide)
  induction rest with
  | nil =>
    intro a done h
    rw [List.map_cons, List.map_nil, List.intercalate_singleton]
    exact (h a List.mem_cons_self _ (hroom done)).run_append (by decide) rfl fun _ _ => step_call
  | cons b rest ih =>
    intro a done h
    have hrest := ih b (done ++ [a.2]) fun c hc => h c (List.mem_cons_of_mem a hc)
    rw [List.map_cons, List.map_cons, List.intercalate_cons_cons, List.append_assoc,
      List.append_assoc]
    refine ((h a List.mem_cons_self _ (hroom done)).run_append (by decide) rfl
      fun _ _ => step_argument).trans (hrest.trans ?_)
    rw [List.append_assoc]
    rfl

/-- **The reader reads what the grammar derives**, whatever it is inside of. -/
theorem Derives.reads {m : Int} {ts : List Token} {e : Expr} (h : Derives m ts e) :
    ∀ fs, Room m fs → HasRead ((Reader.operand fs).run ts) m e fs := by
  induction h with
  | name s => exact fun fs _ => hasRead_self _ _ _
  | number value => exact fun fs _ => hasRead_self _ _ _
  | group _ ih =>
    intro fs _
    change HasRead (run (.operand (.group :: fs)) _) _ _ _
    rw [(ih (.group :: fs) (Room.cons trivial)).run_append le_rfl rfl fun _ _ => step_group]
    exact hasRead_self _ _ _
  | @call ts f arguments _ _ ih ihs =>
    intro fs hroom
    rw [run_append, (ih fs hroom).eq le_rfl, Option.bind_some, run_cons]
    change HasRead (run (.operand (.call f [] :: fs)) _) _ _ _
    cases arguments with
    | nil => exact hasRead_self _ _ _
    | cons a rest =>
      rw [run_arguments rest a [] ihs]
      exact hasRead_self _ _ _
  | @index ts us a e _ _ ih ih' =>
    intro fs hroom
    rw [run_append, (ih fs hroom).eq le_rfl, Option.bind_some, run_cons]
    change HasRead (run (.operand (.index a :: fs)) _) _ _ _
    rw [(ih' (.index a :: fs) (Room.cons trivial)).run_append le_rfl rfl fun _ _ => step_index]
    exact hasRead_self _ _ _
  | member name _ ih =>
    intro fs hroom
    rw [run_append, (ih fs hroom).eq le_rfl, Option.bind_some]
    exact hasRead_self _ _ _
  | postfixed op _ ih =>
    intro fs hroom
    rw [run_append, (ih fs hroom).eq le_rfl, Option.bind_some, run_cons, step_postfixed]
    exact hasRead_self _ _ _
  | @unary ts e op _ ih =>
    intro fs _
    have hoperand := ih (.unary op :: fs) (Room.cons le_rfl)
    rw [run_cons, step_unary, Option.bind_some]
    exact hoperand.completed le_rfl fun _ hq => decide_eq_true hq
  | @binary p ts us l r op hop _ hp _ ihl ihr =>
    intro fs hroom
    obtain ⟨x, gs, hrun, hreduce⟩ := ihl fs hroom
    have hright := ihr (.binary op l :: fs) (Room.cons hp)
    -- the left operand is complete in front of the operator
    have hcases := op.precedence_cases
    have hleft : reduce op.precedence x gs = (l, fs) :=
      (hreduce _ le_rfl).trans (reduce_of_room hroom le_rfl (by omega) (by omega))
    rw [run_append, hrun, Option.bind_some, run_cons, step_binary hop hleft hroom,
      Option.bind_some]
    exact hright.completed hp.le fun _ hq => decide_eq_true hq
  | @conditional p ts us vs c a b hp _ _ _ ihc iha ihb =>
    intro fs hroom
    obtain ⟨x, gs, hrun, hreduce⟩ := ihc fs (hroom.mono hp.le)
    have hlast := ihb (.alternative c a :: fs) (Room.cons le_rfl)
    -- the condition is complete in front of the question mark
    have hcondition : reduce 19 x gs = (c, fs) :=
      (hreduce 19 (by omega)).trans (reduce_of_room hroom (by decide) (by decide) (by decide))
    rw [run_append, hrun, Option.bind_some, run_cons]
    simp only [step, continued, hcondition, Option.bind_some]
    rw [(iha (.consequent c :: fs) (Room.cons trivial)).run_append le_rfl rfl
      fun _ _ => step_consequent]
    exact hlast.completed le_rfl fun _ hq => decide_eq_true hq
  | loosen hle _ ih =>
    intro fs hroom
    obtain ⟨x, gs, hrun, hreduce⟩ := ih fs (hroom.mono hle)
    exact ⟨x, gs, hrun, fun q hq => hreduce q (hle.trans hq)⟩

/-- **The grammar is unambiguous**: tokens are at most one expression, at whatever level. -/
theorem Derives.unique {p q : Int} {ts : List Token} {e e' : Expr} (h : Derives p ts e)
    (h' : Derives q ts e') : e = e' := by
  have hroom : ∀ m, Room m [] := fun m f hf => by cases hf
  obtain ⟨x, gs, hrun, hreduce⟩ := h.reads [] (hroom p)
  obtain ⟨y, hs, hrun', hreduce'⟩ := h'.reads [] (hroom q)
  obtain ⟨rfl, rfl⟩ : x = y ∧ gs = hs := by
    have heq := Option.some.inj (hrun.symm.trans hrun')
    exact ⟨by injection heq, by injection heq⟩
  have hsame := (hreduce _ (le_max_left p q)).symm.trans (hreduce' _ (le_max_right p q))
  exact (Prod.mk.inj hsame).1

end Glsl

end ShaderVariants
