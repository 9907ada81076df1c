import Mathlib.Data.List.Infix

/-!
# Expressions of the assembler (`tools/assembler/assembler.c`)

A recursive descent parser that evaluates as it goes.  The parser's position in the line is the
list of the tokens from its `index` on.  The five loops over left-associative operators and the
one of `parse_expression` differ in the operators they take and in the parser of their operands.

## Key results
- `parseExpression_iff`: the parser accepts exactly the sentences of the grammar `Denotes`, up to
  a token that is no binary operator, and returns their values
-/

namespace RiscMv.Assembler

/-- `AsmTokenType`. -/
inductive AsmTokenType
  | endOfLine | identifier | number | string | colon | comma | plus | minus | star | slash
  | percent | shiftLeft | shiftRight | ampersand | pipe | caret | tilde | lparen | rparen
  deriving DecidableEq

/-- The fields of `AsmToken` that expressions depend on. -/
structure AsmToken where
  type : AsmTokenType
  column : Nat
  text : String
  number : UInt64

/-- The fields of `AssemblyContext` that expressions depend on. -/
structure Context where
  pass : Nat
  baseAddress : UInt64
  offset : UInt64
  symbols : String → Option UInt64

/-- The results `value` and `resolved` of the parsers. -/
structure Operand where
  value : UInt64
  resolved : Bool

/-- `parser_error`, or a recursion that does not shorten the line. -/
inductive ParseError
  | at (column : Nat) (message : String)
  | unfinished

abbrev Parser := List AsmToken → Except ParseError (Operand × List AsmToken)

/-- `current_token`; a line ends with `endOfLine`, which is never consumed. -/
def currentToken : List AsmToken → AsmToken
  | [] => ⟨.endOfLine, 0, "", 0⟩
  | token :: _ => token

@[simp] theorem currentToken_cons (t : AsmToken) (ts : List AsmToken) :
    currentToken (t :: ts) = t := rfl

section Parsers

variable (c : Context) (expression : Parser)

/-- An identifier in `parse_primary`. -/
def identifierValue (token : AsmToken) : Except ParseError Operand :=
  if token.text = "$" then
    if c.baseAddress > 0xFFFFFFFFFFFFFFFF - c.offset then
      .error (.at token.column "current address overflow")
    else .ok ⟨c.baseAddress + c.offset, true⟩
  else
    match c.symbols token.text with
    | some value => .ok ⟨value, true⟩
    | none =>
      if c.pass = 1 then .ok ⟨0, false⟩
      else .error (.at token.column ("undefined symbol '" ++ token.text ++ "'"))

/-- `parse_primary`, with the parser for what is in parentheses. -/
def parsePrimary : Parser := fun ts =>
  let token := currentToken ts
  match token.type with
  | .number => .ok (⟨token.number, true⟩, ts.tail)
  | .identifier =>
    match identifierValue c token with
    | .error e => .error e
    | .ok operand => .ok (operand, ts.tail)
  | .lparen =>
    match expression ts.tail with
    | .error e => .error e
    | .ok (operand, rest) =>
      if (currentToken rest).type = .rparen then .ok (operand, rest.tail)
      else .error (.at (currentToken rest).column "expected ')' after expression")
  | _ => .error (.at token.column "expected expression")

/-- What `parse_unary` does to the value after an operator. -/
def unaryOperator : AsmTokenType → Option (UInt64 → UInt64)
  | .plus => some id
  | .minus => some (0 - ·)
  | .tilde => some (~~~·)
  | _ => none

/-- `parse_unary`. -/
def parseUnary : Parser
  | [] => parsePrimary c expression []
  | t :: ts =>
    match unaryOperator t.type with
    | some f =>
      match parseUnary ts with
      | .error e => .error e
      | .ok (operand, rest) => .ok (⟨f operand.value, operand.resolved⟩, rest)
    | none => parsePrimary c expression (t :: ts)

/-- What the loops do with an operator and its operands. -/
def combine (operator : AsmToken) (left right : Operand) : Except ParseError Operand :=
  let both := left.resolved && right.resolved
  let x := left.value
  let y := right.value
  match operator.type with
  | .star => .ok ⟨x * y, both⟩
  | .slash | .percent =>
    if right.resolved ∧ y = 0 then .error (.at operator.column "division or remainder by zero")
    else if !both then .ok ⟨0, both⟩
    else .ok ⟨if operator.type = .slash then x / y else x % y, both⟩
  | .shiftLeft | .shiftRight =>
    if right.resolved ∧ y ≥ 64 then
      .error (.at operator.column "expression shift must be between 0 and 63")
    else if !both then .ok ⟨0, both⟩
    else .ok ⟨if operator.type = .shiftLeft then x <<< y else x >>> y, both⟩
  | .plus => .ok ⟨x + y, both⟩
  | .minus => .ok ⟨x - y, both⟩
  | .ampersand => .ok ⟨x &&& y, both⟩
  | .caret => .ok ⟨x ^^^ y, both⟩
  | _ => .ok ⟨x ||| y, both⟩

/-- The loop over the operators of a level. -/
def operatorLoop (operators : List AsmTokenType) (operand : Parser) (left : Operand)
    (ts : List AsmToken) : Except ParseError (Operand × List AsmToken) :=
  if (currentToken ts).type ∈ operators then
    match operand ts.tail with
    | .error e => .error e
    | .ok (right, rest) =>
      match combine (currentToken ts) left right with
      | .error e => .error e
      | .ok value =>
        if rest.length < ts.length then operatorLoop operators operand value rest
        else .error .unfinished
  else .ok (left, ts)
termination_by ts.length

def operatorLevel (operators : List AsmTokenType) (operand : Parser) : Parser := fun ts =>
  match operand ts with
  | .error e => .error e
  | .ok (left, rest) => operatorLoop operators operand left rest

/-- `parse_multiply`. -/
def parseMultiply : Parser := operatorLevel [.star, .slash, .percent] (parseUnary c expression)

/-- `parse_add`. -/
def parseAdd : Parser := operatorLevel [.plus, .minus] (parseMultiply c expression)

/-- `parse_shift`. -/
def parseShift : Parser := operatorLevel [.shiftLeft, .shiftRight] (parseAdd c expression)

/-- `parse_and`. -/
def parseAnd : Parser := operatorLevel [.ampersand] (parseShift c expression)

/-- `parse_xor`. -/
def parseXor : Parser := operatorLevel [.caret] (parseAnd c expression)

/-- `parse_expression`.  What is in parentheses is shorter than the line. -/
def parseExpression (ts : List AsmToken) : Except ParseError (Operand × List AsmToken) :=
  let inner : Parser := fun us =>
    if us.length < ts.length then parseExpression us else .error .unfinished
  operatorLevel [.pipe] (parseXor c inner) ts
termination_by ts.length

end Parsers

/-! ## The grammar -/

/-- The binary operators, from those that bind tightest. -/
def operators : Nat → List AsmTokenType
  | 0 => [.star, .slash, .percent]
  | 1 => [.plus, .minus]
  | 2 => [.shiftLeft, .shiftRight]
  | 3 => [.ampersand]
  | 4 => [.caret]
  | 5 => [.pipe]
  | _ => []

/-- The value of a binary operation, unless it divides by 0 or shifts by 64 or more. -/
def binaryValue (operator : AsmTokenType) (x y : UInt64) : Option UInt64 :=
  match operator with
  | .star => some (x * y)
  | .slash => if y = 0 then none else some (x / y)
  | .percent => if y = 0 then none else some (x % y)
  | .plus => some (x + y)
  | .minus => some (x - y)
  | .shiftLeft => if y < 64 then some (x <<< y) else none
  | .shiftRight => if y < 64 then some (x >>> y) else none
  | .ampersand => some (x &&& y)
  | .caret => some (x ^^^ y)
  | .pipe => some (x ||| y)
  | _ => none

/-- The tokens are a sentence with that value, whose binary operators outside parentheses are of
    the first `n` levels. -/
inductive Denotes (c : Context) : Nat → List AsmToken → UInt64 → Prop
  | number {t : AsmToken} (ht : t.type = .number) : Denotes c 0 [t] t.number
  | here {t : AsmToken} (ht : t.type = .identifier) (hname : t.text = "$") :
      Denotes c 0 [t] (c.baseAddress + c.offset)
  | symbol {t : AsmToken} {v : UInt64} (ht : t.type = .identifier) (hname : t.text ≠ "$")
      (hv : c.symbols t.text = some v) : Denotes c 0 [t] v
  | paren {l r : AsmToken} {ts : List AsmToken} {v : UInt64} (hl : l.type = .lparen)
      (h : Denotes c 6 ts v) (hr : r.type = .rparen) : Denotes c 0 (l :: (ts ++ [r])) v
  | plus {t : AsmToken} {ts : List AsmToken} {v : UInt64} (ht : t.type = .plus)
      (h : Denotes c 0 ts v) : Denotes c 0 (t :: ts) v
  | minus {t : AsmToken} {ts : List AsmToken} {v : UInt64} (ht : t.type = .minus)
      (h : Denotes c 0 ts v) : Denotes c 0 (t :: ts) (-v)
  | tilde {t : AsmToken} {ts : List AsmToken} {v : UInt64} (ht : t.type = .tilde)
      (h : Denotes c 0 ts v) : Denotes c 0 (t :: ts) (~~~v)
  | operand {n : Nat} {ts : List AsmToken} {v : UInt64} (h : Denotes c n ts v) :
      Denotes c (n + 1) ts v
  | binary {n : Nat} {t : AsmToken} {ts us : List AsmToken} {x y v : UInt64}
      (hx : Denotes c (n + 1) ts x) (ht : t.type ∈ operators n) (hy : Denotes c n us y)
      (hv : binaryValue t.type x y = some v) : Denotes c (n + 1) (ts ++ t :: us) v

/-- The next token is no binary operator of the first `n` levels. -/
def Stops (n : Nat) (ts : List AsmToken) : Prop := ∀ m < n, (currentToken ts).type ∉ operators m

variable {c : Context} {expression : Parser} {n : Nat} {t : AsmToken} {ts us rest : List AsmToken}
  {x y v : UInt64}

/-- The parser of level `n`: `parse_unary`, `parse_multiply` and so on. -/
def level (c : Context) (expression : Parser) : Nat → Parser
  | 0 => parseUnary c expression
  | n + 1 => operatorLevel (operators n) (level c expression n)

/-- The loops compute `binaryValue`. -/
theorem combine_eq (ht : t.type ∈ operators n) :
    match binaryValue t.type x y with
    | some v => combine t ⟨x, true⟩ ⟨y, true⟩ = .ok ⟨v, true⟩
    | none => ∃ message, combine t ⟨x, true⟩ ⟨y, true⟩ = .error (.at t.column message) := by
  cases hty : t.type with
  | star | plus | minus | ampersand | caret | pipe => simp [combine, binaryValue, hty]
  | slash | percent => by_cases hy : y = 0 <;> simp [combine, binaryValue, hty, hy]
  | shiftLeft | shiftRight =>
    by_cases hy : y < 64
    · simp [combine, binaryValue, hty, hy, UInt64.not_le.mpr hy]
    · simp [combine, binaryValue, hty, hy, UInt64.not_lt.mp hy]
  | _ => rcases n with _ | _ | _ | _ | _ | _ | n <;> simp [operators, hty] at ht

/-! ## What the parser accepts -/

/-- Every identifier is defined and the current address is representable. -/
structure Known (c : Context) (ts : List AsmToken) : Prop where
  here : ¬ c.baseAddress > 0xFFFFFFFFFFFFFFFF - c.offset
  symbols : ∀ t ∈ ts, t.type = .identifier → t.text ≠ "$" → ∃ v, c.symbols t.text = some v

/-- A parser of level `n` consumes a sentence and returns its value, or fails. -/
inductive Outcome (c : Context) (n : Nat) (ts : List AsmToken) :
    Except ParseError (Operand × List AsmToken) → Prop
  | ok {us rest : List AsmToken} {v : UInt64} (hne : us ≠ []) (hts : ts = us ++ rest)
      (hd : Denotes c n us v) (hstop : Stops n rest) : Outcome c n ts (.ok (⟨v, true⟩, rest))
  | error (column : Nat) (message : String) : Outcome c n ts (.error (.at column message))

theorem Stops.succ (h : Stops n ts) (hn : (currentToken ts).type ∉ operators n) :
    Stops (n + 1) ts := by
  intro m hm
  rcases Nat.lt_succ_iff_lt_or_eq.mp hm with hm | rfl
  · exact h m hm
  · exact hn

/-- A line whose current token is not the end of the line has that token. -/
theorem eq_cons_of_currentToken (h : (currentToken ts).type ≠ .endOfLine) :
    ts = currentToken ts :: ts.tail := by
  cases ts with
  | nil => exact absurd rfl h
  | cons t ts => rfl

theorem operators_ne_endOfLine (ht : t.type ∈ operators n) : t.type ≠ .endOfLine := by
  rcases n with _ | _ | _ | _ | _ | _ | n <;> simp [operators] at ht <;> grind

/-- The induction is on the rest of the line; `us` was consumed before. -/
theorem operatorLoop_outcome (hne : us ≠ []) (hd : Denotes c (n + 1) us v) (hstop : Stops n ts)
    (h : ∀ ws, ws <:+ ts → Outcome c n ws (level c expression n ws)) :
    Outcome c (n + 1) (us ++ ts)
      (operatorLoop (operators n) (level c expression n) ⟨v, true⟩ ts) := by
  induction hl : ts.length using Nat.strong_induction_on generalizing ts us v with
  | _ length ih =>
    rw [operatorLoop]
    by_cases hop : (currentToken ts).type ∈ operators n
    · rw [if_pos hop]
      have hts := eq_cons_of_currentToken (operators_ne_endOfLine hop)
      have hright := h ts.tail (List.tail_suffix ts)
      generalize level c expression n ts.tail = r at hright ⊢
      cases hright with
      | error column message => exact .error column message
      | @ok ws rest w _ htail hw hrest =>
        have hcombine := combine_eq (x := v) (y := w) hop
        dsimp only
        cases hv : binaryValue (currentToken ts).type v w with
        | none =>
          rw [hv] at hcombine
          obtain ⟨message, hcombine⟩ := hcombine
          rw [hcombine]
          exact .error _ message
        | some u =>
          rw [hv] at hcombine
          simp only at hcombine
          rw [hcombine]
          have hsplit : currentToken ts :: ws ++ rest = ts := by
            rw [List.cons_append, ← htail, ← hts]
          have hlen : rest.length < ts.length := by
            rw [← hsplit, List.length_append, List.length_cons]
            omega
          dsimp only
          rw [if_pos hlen]
          have hloop := ih _ (hl ▸ hlen) (by simp) (.binary hd hop hw hv) hrest
            (fun vs hvs => h vs (hvs.trans ⟨_, hsplit⟩)) rfl
          rwa [List.append_assoc, hsplit] at hloop
    · rw [if_neg hop]
      exact .ok hne rfl hd (hstop.succ hop)

theorem operatorLevel_outcome (h : ∀ ws, ws <:+ ts → Outcome c n ws (level c expression n ws)) :
    Outcome c (n + 1) ts (level c expression (n + 1) ts) := by
  have hleft := h ts (List.suffix_refl ts)
  unfold level operatorLevel
  generalize level c expression n ts = r at hleft ⊢
  cases hleft with
  | error column message => exact .error column message
  | @ok us rest v hne hts hd hstop =>
    rw [hts]
    refine operatorLoop_outcome hne (.operand hd) hstop fun ws hws => h ws ?_
    exact hws.trans ⟨us, hts.symm⟩

theorem Stops.zero (ts : List AsmToken) : Stops 0 ts := fun _ hm => absurd hm (Nat.not_lt_zero _)

theorem identifierValue_outcome (hk : Known c ts) (ht : t ∈ ts) (hty : t.type = .identifier) :
    ∃ v, identifierValue c t = .ok ⟨v, true⟩ ∧ Denotes c 0 [t] v := by
  unfold identifierValue
  by_cases hname : t.text = "$"
  · rw [if_pos hname, if_neg hk.here]
    exact ⟨_, rfl, .here hty hname⟩
  · obtain ⟨v, hv⟩ := hk.symbols t ht hty hname
    rw [if_neg hname, hv]
    exact ⟨v, rfl, .symbol hty hname hv⟩

/-- What `parse_unary` does is what the grammar says. -/
theorem Denotes.unary {f : UInt64 → UInt64} (ht : unaryOperator t.type = some f)
    (hv : Denotes c 0 ts v) : Denotes c 0 (t :: ts) (f v) := by
  unfold unaryOperator at ht
  split at ht <;> cases ht
  · next ht => exact .plus ht hv
  · next ht => simpa using Denotes.minus ht hv
  · next ht => exact .tilde ht hv

section

variable (hk : Known c ts)
  (h : ∀ ws, ws <:+ ts → ws.length < ts.length → Outcome c 6 ws (expression ws))
include hk h

theorem parsePrimary_outcome : Outcome c 0 ts (parsePrimary c expression ts) := by
  cases ts with
  | nil => exact .error _ _
  | cons t ts =>
    unfold parsePrimary
    simp only [currentToken_cons, List.tail_cons]
    split
    · next hty => exact .ok (List.cons_ne_nil _ _) rfl (.number hty) (.zero _)
    · next hty =>
      obtain ⟨v, hv, hd⟩ := identifierValue_outcome hk List.mem_cons_self hty
      rw [hv]
      exact .ok (List.cons_ne_nil _ _) rfl hd (.zero _)
    · next hty =>
      have hinner := h ts (List.suffix_cons t ts) (by simp)
      generalize expression ts = r at hinner ⊢
      cases hinner with
      | error column message => exact .error column message
      | @ok us rest v hne hts hd hstop =>
        dsimp only
        by_cases hr : (currentToken rest).type = .rparen
        · rw [if_pos hr]
          have hrest : rest = currentToken rest :: rest.tail :=
            eq_cons_of_currentToken (by rw [hr]; exact nofun)
          refine .ok (List.cons_ne_nil _ _) ?_ (.paren hty hd hr) (.zero _)
          simp only [List.cons_append, List.append_assoc, List.nil_append]
          rw [← hrest, ← hts]
        · rw [if_neg hr]
          exact .error _ _
    · exact .error _ _

theorem parseUnary_outcome : Outcome c 0 ts (parseUnary c expression ts) := by
  induction ts with
  | nil => exact parsePrimary_outcome hk h
  | cons t ts ih =>
    have htail := ih ⟨hk.here, fun u hu => hk.symbols u (List.mem_cons_of_mem _ hu)⟩
      fun ws hws hlt => h ws (hws.trans (List.suffix_cons t ts)) (Nat.lt_succ_of_lt hlt)
    unfold parseUnary
    split
    · next f hf =>
      generalize parseUnary c expression ts = r at htail ⊢
      cases htail with
      | error column message => exact .error column message
      | ok _ hts hv _ =>
        exact .ok (List.cons_ne_nil _ _) (congrArg (t :: ·) hts) (.unary hf hv) (.zero _)
    · exact parsePrimary_outcome hk h

/-- The parser of each level is right if the one for parentheses is. -/
theorem level_outcome (n : Nat) : ∀ ws, ws <:+ ts → Outcome c n ws (level c expression n ws) := by
  induction n with
  | zero =>
    intro ws hws
    refine parseUnary_outcome ⟨hk.here, fun u hu => hk.symbols u (hws.subset hu)⟩ ?_
    exact fun vs hvs hlt => h vs (hvs.trans hws) (hlt.trans_le hws.length_le)
  | succ n ih =>
    intro ws hws
    exact operatorLevel_outcome fun vs hvs => ih vs (hvs.trans hws)

end

theorem parseExpression_outcome (hk : Known c ts) : Outcome c 6 ts (parseExpression c ts) := by
  induction hl : ts.length using Nat.strong_induction_on generalizing ts with
  | _ length ih =>
    rw [parseExpression]
    refine level_outcome hk (fun ws hws hlt => ?_) 6 ts (List.suffix_refl ts)
    rw [if_pos hlt]
    exact ih _ (hl ▸ hlt) ⟨hk.here, fun u hu => hk.symbols u (hws.subset hu)⟩ rfl

/-! ## Every sentence is accepted -/

/-- How far the parser of a level gets with a sentence: `parse_unary` has its value, a loop is
    about to look at the next token.  `bound` limits the line, so that parentheses can be parsed. -/
def Reaches (c : Context) (expression : Parser) (bound : Nat) :
    Nat → List AsmToken → UInt64 → Prop
  | 0, us, v => ∀ rest, (us ++ rest).length ≤ bound →
    level c expression 0 (us ++ rest) = .ok (⟨v, true⟩, rest)
  | n + 1, us, v => ∀ rest, (us ++ rest).length ≤ bound → Stops n rest →
    level c expression (n + 1) (us ++ rest) =
      operatorLoop (operators n) (level c expression n) ⟨v, true⟩ rest

theorem Reaches.eq_ok {bound : Nat} (h : Reaches c expression bound n us v)
    (hlen : (us ++ rest).length ≤ bound) (hstop : Stops n rest) :
    level c expression n (us ++ rest) = .ok (⟨v, true⟩, rest) := by
  cases n with
  | zero => exact h rest hlen
  | succ n =>
    rw [h rest hlen fun m hm => hstop m (Nat.lt_succ_of_lt hm), operatorLoop,
      if_neg (hstop n (Nat.lt_succ_self n))]

theorem operators_disjoint {m : Nat} (hm : m < n) (ht : t.type ∈ operators n) :
    t.type ∉ operators m := by
  rcases n with _ | _ | _ | _ | _ | _ | n
  all_goals rcases m with _ | _ | _ | _ | _ | _ | m
  all_goals simp [operators] at ht ⊢
  all_goals first | omega | grind

/-- By induction on the sentence; only parentheses ask for the parser of expressions. -/
theorem Denotes.reaches {bound : Nat} (hd : Denotes c n us v)
    (hhere : ¬ c.baseAddress > 0xFFFFFFFFFFFFFFFF - c.offset)
    (h : ∀ us v rest, (us ++ rest).length < bound → Denotes c 6 us v → Stops 6 rest →
      expression (us ++ rest) = .ok (⟨v, true⟩, rest)) : Reaches c expression bound n us v := by
  induction hd with
  | number ht =>
    intro rest _
    simp [level, parseUnary, unaryOperator, parsePrimary, ht]
  | here ht hname =>
    intro rest _
    simp [level, parseUnary, unaryOperator, parsePrimary, ht, identifierValue, hname, hhere]
  | symbol ht hname hv =>
    intro rest _
    simp [level, parseUnary, unaryOperator, parsePrimary, ht, identifierValue, hname, hv]
  | @paren l r ts v hl hts hr _ =>
    intro rest hlen
    have hstop : Stops 6 (r :: rest) := by
      intro m hm
      rw [currentToken_cons, hr]
      rcases m with _ | _ | _ | _ | _ | _ | m <;> simp [operators]
    have hinner := h ts v (r :: rest) (by simp at hlen ⊢; omega) hts hstop
    simp [level, parseUnary, unaryOperator, parsePrimary, hl, hinner, hr]
  | plus ht _ ih | minus ht _ ih | tilde ht _ ih =>
    intro rest hlen
    have hrest := ih rest (Nat.le_of_succ_le hlen)
    simp only [level] at hrest
    simp [level, parseUnary, unaryOperator, ht, hrest]
  | operand _ ih =>
    intro rest hlen hstop
    rw [level, operatorLevel, ih.eq_ok hlen hstop]
  | @binary n t ts us x y v _ ht _ hv ihx ihy =>
    intro rest hlen hstop
    have hlen' : (ts ++ t :: (us ++ rest)).length ≤ bound := by simpa using hlen
    have hlast : (us ++ rest).length ≤ bound := by
      simp at hlen' ⊢
      omega
    have hy := ihy.eq_ok hlast hstop
    have hcombine := combine_eq (x := x) (y := y) ht
    rw [hv] at hcombine
    simp only at hcombine
    rw [List.append_assoc, List.cons_append,
      ihx _ hlen' fun m hm => operators_disjoint hm ht, operatorLoop, currentToken_cons,
      if_pos ht, List.tail_cons, hy]
    simp only [hcombine]
    rw [if_pos (by rw [List.length_cons, List.length_append]; omega)]

theorem parseExpression_complete (hhere : ¬ c.baseAddress > 0xFFFFFFFFFFFFFFFF - c.offset)
    (hd : Denotes c 6 us v) (hstop : Stops 6 rest) :
    parseExpression c (us ++ rest) = .ok (⟨v, true⟩, rest) := by
  induction hl : (us ++ rest).length using Nat.strong_induction_on generalizing us rest v with
  | _ length ih =>
    rw [parseExpression]
    refine Reaches.eq_ok (n := 6) (hd.reaches hhere fun ws w after hlt hw hafter => ?_) hl.le hstop
    rw [if_pos (hl ▸ hlt)]
    exact ih _ hlt hw hafter rfl

/-- For a line with every identifier defined and a representable current address,
    `parse_expression` succeeds exactly if the tokens it consumes are a sentence and the next one
    is no binary operator, with the value of that sentence. -/
theorem parseExpression_iff (hk : Known c ts) (operand : Operand) (rest : List AsmToken) :
    (parseExpression c ts = .ok (operand, rest) ↔
      operand.resolved = true ∧ ∃ us, ts = us ++ rest ∧ Denotes c 6 us operand.value ∧
        Stops 6 rest) ∧
    ((∀ r, parseExpression c ts ≠ .ok r) →
      ∃ column message, parseExpression c ts = .error (.at column message)) := by
  have houtcome := parseExpression_outcome hk
  refine ⟨⟨fun h => ?_, ?_⟩, fun hfail => ?_⟩
  · rw [h] at houtcome
    cases houtcome with
    | ok _ hts hd hstop => exact ⟨rfl, _, hts, hd, hstop⟩
  · rintro ⟨hresolved, us, rfl, hd, hstop⟩
    obtain ⟨v, _⟩ := operand
    cases hresolved
    exact parseExpression_complete hk.here hd hstop
  · generalize parseExpression c ts = r at houtcome hfail ⊢
    cases houtcome with
    | ok _ _ _ _ => exact absurd rfl (hfail _)
    | error column message => exact ⟨column, message, rfl⟩

/-- `2 * $` at the address 0x1008. -/
theorem parseExpression_iff_product :
    parseExpression ⟨2, 0x1000, 8, fun _ => none⟩ [⟨.number, 1, "", 2⟩, ⟨.star, 3, "", 0⟩,
      ⟨.identifier, 5, "$", 0⟩, ⟨.endOfLine, 6, "", 0⟩] =
      .ok (⟨0x2010, true⟩, [⟨.endOfLine, 6, "", 0⟩]) :=
  have product : Denotes ⟨2, 0x1000, 8, fun _ => none⟩ 1 ([⟨.number, 1, "", 2⟩] ++
      ⟨.star, 3, "", 0⟩ :: [⟨.identifier, 5, "$", 0⟩]) 0x2010 :=
    .binary (.operand (.number rfl)) (by decide) (.here rfl rfl) rfl
  (parseExpression_iff ⟨by decide, by simp⟩ _ _).1.mpr
    ⟨rfl, _, rfl, product.operand.operand.operand.operand.operand, by unfold Stops; decide⟩

end RiscMv.Assembler
