import Homeworks.Gpp.Grammar
import Homeworks.Parsing.Reader

/-!
# The grammar of G++ is unambiguous

A reader that decides by the next tokens reads every derivation tree back from its tokens.
-/

open Parsing

namespace Gpp

open Token

/-! ### The reader -/

def readValue : Reader Token Value := do
  match ← next with
  | .valuef => pure .valuef
  | .valuei => pure .valuei
  | .identifier => pure .identifier
  | _ => failure

/-- The rest of a list of values, with the token after it. -/
def readMoreValues : ℕ → Values → Reader Token Values
  | 0, _ => failure
  | fuel + 1, values => do
    match ← next with
    | .opCp => pure values
    | .opComma =>
      let value ← readValue
      readMoreValues fuel (.comma values value)
    | _ => failure

def readValues (fuel : ℕ) : Reader Token Values := do
  let value ← readValue
  readMoreValues fuel (.value value)

/-- The list of expressions with the given ones, which is not empty. -/
def ofList : List Exp → Reader Token ExpList
  | [] => failure
  | e :: es => pure (es.foldl .more (.exp e))

def toExpb : Exp → Reader Token Expb
  | .expb exp => pure exp
  | _ => failure

def toList : Exp → Reader Token ListExp
  | .list list => pure list
  | _ => failure

section

variable (fuel : ℕ) (exp : Reader Token Exp)

/-- The expressions up to a closing parenthesis. -/
def readExps : Reader Token (List Exp) := readUntil opCp exp (fuel + 1)

def readExpList : Reader Token ExpList := readExps fuel exp >>= ofList

/-- Two expressions and a closing parenthesis. -/
def readTwo (make : Exp → Exp → Exp) : Reader Token Exp := do
  let left ← exp
  let right ← exp
  token opCp
  pure (make left right)

/-- One expression and a closing parenthesis. -/
def readOne (make : Exp → Exp) : Reader Token Exp := do
  let e ← exp
  token opCp
  pure (make e)

/-- Two lists and a closing parenthesis. -/
def readLists (make : ListExp → ListExp → Expi) : Reader Token Exp := do
  let left ← exp >>= toList
  let right ← exp >>= toList
  token opCp
  pure (.expi (make left right))

/-- What comes after an opening parenthesis and a first token. -/
def readForm : Token → Reader Token Exp
  | opPlus => readTwo exp .plus
  | opMinus => readTwo exp .minus
  | opMult => readTwo exp .mult
  | opDiv => readTwo exp .div
  | kwAnd => readTwo exp fun left right => .expb (.and left right)
  | kwOr => readTwo exp fun left right => .expb (.or left right)
  | kwNot => readOne exp fun e => .expb (.not e)
  | kwLess => readTwo exp fun left right => .expb (.less left right)
  | kwEqual => readTwo exp fun left right => .expb (.equal left right)
  | kwDeffun => do
    token identifier
    token opOp
    let params ← readExpList fuel exp
    let body ← readExpList fuel exp
    pure (.expi (.deffun params body))
  | kwSet => do
    token identifier
    readOne exp fun e => .expi (.set e)
  | kwIf => do
    let condition ← exp >>= toExpb
    match ← readExps fuel exp with
    | [e] => pure (.expi (.ifThen condition e))
    | [e, other] => pure (.expi (.ifElse condition e other))
    | _ => failure
  | kwDefvar => do
    token identifier
    readOne exp fun e => .expi (.defvar e)
  | kwWhile => do
    let condition ← exp >>= toExpb
    let body ← readExpList fuel exp
    pure (.expi (.while condition body))
  | kwFor => do
    token opOp
    token identifier
    let start ← exp
    let stop ← exp
    token opCp
    let body ← readExpList fuel exp
    pure (.expi (.for start stop body))
  | kwConcat => readLists exp .concat
  | kwAppend => readLists exp .append
  | kwExit => do
    token opCp
    pure (.expi .exit)
  | kwList => do
    let values ← readValues fuel
    pure (.list (.list values))
  | identifier => do
    let args ← readExpList fuel exp
    pure (.functionCall (.call args))
  | kwLoad => do
    token string
    token opCp
    pure (.loadStatement .load)
  | kwDisp =>
    ifNext string
      (do token string; token opCp; pure (.printStatement .string))
      (readOne exp fun e => .printStatement (.exp e))
  | _ => failure

end

def readExp : ℕ → Reader Token Exp
  | 0 => failure
  | fuel + 1 => do
    match ← next with
    | valuei => pure .valuei
    | valuef => pure .valuef
    | identifier => pure .identifier
    | kwTrue => pure (.expb .true)
    | kwFalse => pure (.expb .false)
    | kwNil => pure (.list .nil)
    | opApo =>
      token opOp
      ifNext opCp
        (do token opCp; pure (.list .empty))
        (do
          let values ← readValues fuel
          pure (.list (.quoted values)))
    | opOp =>
      let t ← next
      readForm fuel (readExp fuel) t
    | _ => failure

/-! ### Lists of values and expressions -/

theorem Value.reads (value : Value) :
  Reads readValue value.yield value
  := by
  cases value with
  | valuef | valuei | identifier => exact fun _ => rfl

theorem Value.yield_ne (value : Value) :
  ∃ t, value.yield = [t] ∧ t ≠ opCp
  := by
  cases value with
  | valuef | valuei | identifier => exact ⟨_, rfl, nofun⟩

/-- The first value of a list of values. -/
def Values.first : Values → Value
  | comma vs _ => vs.first
  | value v => v

/-- The other values. -/
def Values.others : Values → List Value
  | comma vs v => vs.others ++ [v]
  | value _ => []

theorem Values.yield_start (values : Values) :
  ∃ t ts, values.yield = t :: ts ∧ t ≠ opCp
  := by
  induction values with
  | comma vs v ih =>
      obtain ⟨t, ts, hstart, hne⟩ := ih
      exact ⟨t, ts ++ opComma :: v.yield, by rw [yield, hstart, List.cons_append], hne⟩
  | value v =>
      obtain ⟨t, ht, hne⟩ := v.yield_ne
      exact ⟨t, [], ht, hne⟩

theorem Values.eq_foldl (values : Values) :
  values = values.others.foldl .comma (.value values.first)
  := by
  induction values with
  | comma vs v ih => rw [others, first, List.foldl_append, ← ih]; rfl
  | value v => rfl

theorem Values.yield_eq (values : Values) :
  values.yield = values.first.yield ++ values.others.flatMap fun v => opComma :: v.yield
  := by
  induction values with
  | comma vs v ih => rw [yield, others, first, ih, List.flatMap_append, List.append_assoc]; simp
  | value v => simp [yield, others, first]

theorem reads_readMoreValues {others : List Value} (values : Values) {fuel : ℕ}
    (hfuel : others.length < fuel) :
  Reads (readMoreValues fuel values) ((others.flatMap fun v => opComma :: v.yield) ++ [opCp])
    (others.foldl .comma values)
  := by
  induction others generalizing values fuel with
  | nil =>
      obtain ⟨fuel, rfl⟩ := Nat.exists_eq_succ_of_ne_zero (Nat.ne_of_gt hfuel)
      exact fun _ => rfl
  | cons v others ih =>
      obtain ⟨fuel, rfl⟩ := Nat.exists_eq_succ_of_ne_zero (Nat.ne_zero_of_lt hfuel)
      refine (Reads.bind (reads_next opComma) (v.reads.bind (ih _ ?_))).congr ?_
      · exact Nat.lt_of_succ_lt_succ hfuel
      · simp

theorem Values.length_others (values : Values) :
  values.others.length < values.yield.length
  := by
  induction values with
  | comma vs v ih =>
      obtain ⟨t, ht, -⟩ := v.yield_ne
      rw [others, yield, ht, List.length_append, List.length_append]
      exact Nat.add_lt_add ih Nat.one_lt_two
  | value v => cases v <;> exact Nat.one_pos

theorem Values.reads (values : Values) {fuel : ℕ} (hfuel : values.yield.length ≤ fuel) :
  Reads (readValues fuel) (values.yield ++ [opCp]) values
  := by
  have hrest := reads_readMoreValues (.value values.first)
    (Nat.lt_of_lt_of_le values.length_others hfuel)
  rw [← values.eq_foldl] at hrest
  refine (Reads.bind values.first.reads hrest).congr ?_
  rw [values.yield_eq, List.append_assoc]

/-! ### Lists of expressions -/

namespace ExpList

def toList : ExpList → List Exp
  | more es e => es.toList ++ [e]
  | exp e => [e]

theorem induction {P : ExpList → Prop} (hexp : ∀ e, P (exp e))
    (hmore : ∀ es e, P es → P (more es e))
    (exps : ExpList) :
  P exps
  := by
  cases exps with
  | more es e => exact hmore es e (induction hexp hmore es)
  | exp e => exact hexp e

theorem toList_eq (exps : ExpList) :
  ∃ e es, exps.toList = e :: es ∧ exps = es.foldl more (exp e)
  := by
  induction exps using ExpList.induction with
  | hexp e => exact ⟨e, [], rfl, rfl⟩
  | hmore exps e ih =>
      obtain ⟨first, es, hlist, heq⟩ := ih
      refine ⟨first, es ++ [e], ?_, ?_⟩
      · rw [toList, hlist, List.cons_append]
      · rw [List.foldl_append, ← heq]
        rfl

theorem yield_eq (exps : ExpList) :
  exps.yield = exps.toList.flatMap Exp.yield
  := by
  induction exps using ExpList.induction with
  | hexp e => simp [yield, toList]
  | hmore exps e ih => simp [yield, toList, ih]

end ExpList

theorem Exp.yield_start (e : Exp) :
  ∃ t ts, e.yield = t :: ts ∧ t ≠ opCp ∧ t ≠ string
  := by
  cases e with
  | expb b => cases b <;> exact ⟨_, _, rfl, nofun, nofun⟩
  | expi i => cases i <;> exact ⟨_, _, rfl, nofun, nofun⟩
  | list l => cases l <;> exact ⟨_, _, rfl, nofun, nofun⟩
  | functionCall c => cases c; exact ⟨_, _, rfl, nofun, nofun⟩
  | printStatement c => cases c <;> exact ⟨_, _, rfl, nofun, nofun⟩
  | loadStatement c => cases c; exact ⟨_, _, rfl, nofun, nofun⟩
  | _ => exact ⟨_, _, rfl, nofun, nofun⟩

theorem length_le_flatMap (es : List Exp) :
  es.length ≤ (es.flatMap Exp.yield).length
  := by
  induction es with
  | nil => exact Nat.le_refl 0
  | cons e es ih =>
      obtain ⟨t, ts, hstart, -⟩ := e.yield_start
      rw [List.flatMap_cons, hstart, List.length_append, List.length_cons, List.length_cons]
      omega

/-! ### Forms -/

section

variable {fuel : ℕ} {exp : Reader Token Exp} {left right : Exp} {w w' : List Token}

theorem reads_form (t : Token) {e : Exp} (h : Reads (readForm fuel (readExp fuel) t) w e) :
  Reads (readExp (fuel + 1)) (opOp :: t :: w) e
  := h

theorem reads_readTwo {make : Exp → Exp → Exp} (hleft : Reads exp w left)
    (hright : Reads exp w' right) :
  Reads (readTwo exp make) (w ++ (w' ++ [opCp])) (make left right)
  := hleft.bind (hright.bind ((reads_token opCp).bind (Reads.pure _)))

theorem reads_readOne {make : Exp → Exp} (hleft : Reads exp w left) :
  Reads (readOne exp make) (w ++ [opCp]) (make left)
  := hleft.bind ((reads_token opCp).bind (Reads.pure _))

theorem reads_toList {l : ListExp} (h : Reads exp w (.list l)) :
  Reads (exp >>= toList) w l
  := (h.bind (Reads.pure l)).congr (List.append_nil w)

theorem reads_toExpb {b : Expb} (h : Reads exp w (.expb b)) :
  Reads (exp >>= toExpb) w b
  := (h.bind (Reads.pure b)).congr (List.append_nil w)

theorem reads_readLists {make : ListExp → ListExp → Expi} {l l' : ListExp}
    (hleft : Reads exp w (.list l)) (hright : Reads exp w' (.list l')) :
  Reads (readLists exp make) (w ++ (w' ++ [opCp])) (.expi (make l l'))
  := (reads_toList hleft).bind
      ((reads_toList hright).bind ((reads_token opCp).bind (Reads.pure _)))

/-- The expressions of a list. -/
theorem reads_readExps {es : List Exp} (hread : ∀ e ∈ es, Reads exp e.yield e)
    (hfuel : (es.flatMap Exp.yield).length ≤ fuel) :
  Reads (readExps fuel exp) (es.flatMap Exp.yield ++ [opCp]) es
  := by
  have hlength := length_le_flatMap es
  exact reads_readUntil (by omega) hread fun e _ => by
    obtain ⟨t, ts, hstart, hne, -⟩ := e.yield_start
    exact ⟨t, ts, hstart, hne⟩

end

/-! ### Every tree -/

section

variable {fuel : ℕ}
  (ih : ∀ e : Exp, e.yield.length ≤ fuel → Reads (readExp fuel) e.yield e)

include ih

theorem reads_exps (es : List Exp) (hfuel : (es.flatMap Exp.yield).length ≤ fuel) :
  Reads (readExps fuel (readExp fuel)) (es.flatMap Exp.yield ++ [opCp]) es
  := by
  refine reads_readExps (fun e he => ih e ?_) hfuel
  obtain ⟨before, after, rfl⟩ := List.append_of_mem he
  simp only [List.flatMap_append, List.flatMap_cons, List.length_append] at hfuel
  omega

theorem reads_expList (es : ExpList) (hfuel : es.yield.length ≤ fuel) :
  Reads (readExpList fuel (readExp fuel)) (es.yield ++ [opCp]) es
  := by
  rw [es.yield_eq] at hfuel
  obtain ⟨first, others, hlist, heq⟩ := es.toList_eq
  have hmake : Reads (ofList es.toList) [] es := by
    rw [hlist, heq]
    exact Reads.pure _
  refine ((reads_exps ih _ hfuel).bind hmake).congr ?_
  rw [List.append_nil, es.yield_eq]

theorem reads_condition {condition : Expb} (hfuel : condition.yield.length ≤ fuel) :
  Reads (readExp fuel >>= toExpb) condition.yield condition
  := reads_toExpb (ih (.expb condition) hfuel)

theorem reads_two {t : Token} {make : Exp → Exp → Exp} {word : List Token} {left right : Exp}
    (hform : readForm fuel (readExp fuel) t = readTwo (readExp fuel) make)
    (hword : word = opOp :: t :: (left.yield ++ (right.yield ++ [opCp])))
    (hfuel : word.length ≤ fuel + 1) :
  Reads (readExp (fuel + 1)) word (make left right)
  := by
  subst hword
  simp only [List.length_append, List.length_cons] at hfuel
  refine reads_form t ?_
  rw [hform]
  exact reads_readTwo (ih left (by omega)) (ih right (by omega))

theorem reads_lists {t : Token} {make : ListExp → ListExp → Expi} {word : List Token}
    {left right : ListExp} (hform : readForm fuel (readExp fuel) t = readLists (readExp fuel) make)
    (hword : word = opOp :: t :: (left.yield ++ (right.yield ++ [opCp])))
    (hfuel : word.length ≤ fuel + 1) :
  Reads (readExp (fuel + 1)) word (.expi (make left right))
  := by
  subst hword
  simp only [List.length_append, List.length_cons] at hfuel
  refine reads_form t ?_
  rw [hform]
  exact reads_readLists (ih (.list left) (by rw [Exp.yield]; omega))
    (ih (.list right) (by rw [Exp.yield]; omega))

theorem Expb.reads {b : Expb} (hfuel : b.yield.length ≤ fuel + 1) :
  Reads (readExp (fuel + 1)) b.yield (.expb b)
  := by
  cases b with
  | and => exact reads_two ih (t := kwAnd) rfl (by simp [yield]) hfuel
  | or => exact reads_two ih (t := kwOr) rfl (by simp [yield]) hfuel
  | less => exact reads_two ih (t := kwLess) rfl (by simp [yield]) hfuel
  | equal => exact reads_two ih (t := kwEqual) rfl (by simp [yield]) hfuel
  | not e =>
      simp only [yield, List.length_append, List.length_cons] at hfuel
      exact (reads_form kwNot (reads_readOne (ih e (by omega)))).congr (by simp [yield])
  | true => exact fun _ => rfl
  | false => exact fun _ => rfl

theorem Expi.reads {i : Expi} (hfuel : i.yield.length ≤ fuel + 1) :
  Reads (readExp (fuel + 1)) i.yield (.expi i)
  := by
  cases i with
  | concat => exact reads_lists ih (t := kwConcat) rfl (by simp [yield]) hfuel
  | append => exact reads_lists ih (t := kwAppend) rfl (by simp [yield]) hfuel
  | exit => exact fun _ => rfl
  | deffun params body =>
      simp only [yield, List.length_append, List.length_cons] at hfuel
      refine Reads.congr (reads_form kwDeffun
        (Reads.bind (reads_token _) (Reads.bind (reads_token _)
        (Reads.bind (reads_expList ih params (by omega))
          (Reads.bind (reads_expList ih body (by omega)) (Reads.pure _)))))) ?_
      simp [yield]
  | set e =>
      simp only [yield, List.length_append, List.length_cons] at hfuel
      refine Reads.congr (reads_form kwSet
        (Reads.bind (reads_token _) (reads_readOne (ih e (by omega))))) ?_
      simp [yield]
  | defvar e =>
      simp only [yield, List.length_append, List.length_cons] at hfuel
      refine Reads.congr (reads_form kwDefvar
        (Reads.bind (reads_token _) (reads_readOne (ih e (by omega))))) ?_
      simp [yield]
  | ifThen condition e =>
      simp only [yield, List.length_append, List.length_cons] at hfuel
      have hexps : ([e].flatMap Exp.yield).length ≤ fuel := by
        rw [List.flatMap_singleton]
        omega
      refine Reads.congr (reads_form kwIf (Reads.bind (reads_condition ih (by omega))
        (Reads.bind (reads_exps ih _ hexps) (Reads.pure _)))) ?_
      simp [yield]
  | ifElse condition e other =>
      simp only [yield, List.length_append, List.length_cons] at hfuel
      have hexps : ([e, other].flatMap Exp.yield).length ≤ fuel := by
        rw [List.flatMap_cons, List.flatMap_singleton, List.length_append]
        omega
      refine Reads.congr (reads_form kwIf (Reads.bind (reads_condition ih (by omega))
        (Reads.bind (reads_exps ih _ hexps) (Reads.pure _)))) ?_
      simp [yield]
  | «while» condition body =>
      simp only [yield, List.length_append, List.length_cons] at hfuel
      refine Reads.congr (reads_form kwWhile (Reads.bind (reads_condition ih (by omega))
        (Reads.bind (reads_expList ih body (by omega)) (Reads.pure _)))) ?_
      simp [yield]
  | «for» start stop body =>
      simp only [yield, List.length_append, List.length_cons] at hfuel
      refine Reads.congr (reads_form kwFor (Reads.bind (reads_token _) (Reads.bind (reads_token _)
        (Reads.bind (ih start (by omega)) (Reads.bind (ih stop (by omega))
          (Reads.bind (reads_token _)
            (Reads.bind (reads_expList ih body (by omega)) (Reads.pure _)))))))) ?_
      simp [yield]

omit ih in
theorem ListExp.reads {l : ListExp} (hfuel : l.yield.length ≤ fuel + 1) :
  Reads (readExp (fuel + 1)) l.yield (.list l)
  := by
  cases l with
  | list values =>
      simp only [yield, List.length_append, List.length_cons] at hfuel
      refine Reads.congr (reads_form kwList
        (Reads.bind (values.reads (by omega)) (Reads.pure _))) ?_
      simp [yield]
  | quoted values =>
      simp only [yield, List.length_append, List.length_cons] at hfuel
      obtain ⟨t, ts, hstart, hne⟩ := values.yield_start
      have hread : Reads (readValues fuel >>= fun values => pure (Exp.list (.quoted values)))
          (t :: (ts ++ [opCp])) (.list (.quoted values)) := by
        refine Reads.congr (Reads.bind (values.reads (by omega)) (Reads.pure _)) ?_
        rw [hstart, List.append_nil, List.cons_append]
      refine Reads.congr (Reads.bind (reads_next opApo) (Reads.bind (reads_token _)
        (hread.ifNext_ne hne))) ?_
      simp [yield, hstart]
  | empty => exact fun _ => rfl
  | nil => exact fun _ => rfl

theorem FunctionCall.reads {c : FunctionCall} (hfuel : c.yield.length ≤ fuel + 1) :
  Reads (readExp (fuel + 1)) c.yield (.functionCall c)
  := by
  cases c with
  | call args =>
      simp only [yield, List.length_append, List.length_cons] at hfuel
      refine Reads.congr (reads_form identifier
        (Reads.bind (reads_expList ih args (by omega)) (Reads.pure _))) ?_
      simp [yield]

theorem PrintStatement.reads {c : PrintStatement} (hfuel : c.yield.length ≤ fuel + 1) :
  Reads (readExp (fuel + 1)) c.yield (.printStatement c)
  := by
  cases c with
  | string => exact fun _ => rfl
  | exp e =>
      simp only [yield, List.length_append, List.length_cons] at hfuel
      obtain ⟨t, ts, hstart, -, hne⟩ := e.yield_start
      have hread : Reads (readOne (readExp fuel) fun e => .printStatement (.exp e))
          (e.yield ++ [opCp]) (.printStatement (.exp e)) := reads_readOne (ih e (by omega))
      rw [hstart] at hread
      refine Reads.congr (reads_form kwDisp (Reads.ifNext_ne hread hne)) ?_
      simp [yield, hstart]

end

/-- Every expression is read back from its tokens. -/
theorem Exp.reads {fuel : ℕ} {e : Exp} (hfuel : e.yield.length ≤ fuel) :
  Reads (readExp fuel) e.yield e
  := by
  induction fuel generalizing e with
  | zero =>
      obtain ⟨t, ts, hstart, -⟩ := e.yield_start
      rw [hstart] at hfuel
      exact absurd hfuel (Nat.not_succ_le_zero _)
  | succ fuel ih =>
      replace ih := fun (e : Exp) (he : e.yield.length ≤ fuel) => ih he
      cases e with
      | plus => exact reads_two ih (t := opPlus) rfl (by simp [yield]) hfuel
      | minus => exact reads_two ih (t := opMinus) rfl (by simp [yield]) hfuel
      | mult => exact reads_two ih (t := opMult) rfl (by simp [yield]) hfuel
      | div => exact reads_two ih (t := opDiv) rfl (by simp [yield]) hfuel
      | valuei | valuef | identifier => exact fun _ => rfl
      | expb b => exact b.reads ih hfuel
      | expi i => exact i.reads ih hfuel
      | list l => exact l.reads hfuel
      | functionCall c => exact c.reads ih hfuel
      | printStatement c => exact c.reads ih hfuel
      | loadStatement c => cases c; exact fun _ => rfl

/-- There is at most one derivation tree for a sequence of tokens, and no expression is a proper
prefix of another. -/
theorem grammar_unambiguous :
  (∀ s s' : Start, s.yield = s'.yield → s = s')
    ∧ ∀ e e' : Exp, e.yield <+: e'.yield → e = e'
  := by
  constructor
  · intro ⟨⟨es⟩⟩ ⟨⟨es'⟩⟩ heq
    have hread : ∀ exps : ExpList, Reads (readExpList exps.yield.length (readExp exps.yield.length))
        (exps.yield ++ [opCp]) exps := fun exps =>
      reads_expList (fun _ => Exp.reads) exps (Nat.le_refl _)
    have hlist : es.yield = es'.yield := heq
    have hes := hread es
    rw [hlist] at hes
    have hend : es'.yield ++ [opCp] ++ [] = es'.yield ++ [opCp] ++ [] := rfl
    rw [(hes.unique (hread es') hend).1]
  · rintro e e' ⟨rest, hrest⟩
    have hlength : e.yield.length ≤ e'.yield.length := by
      rw [← hrest, List.length_append]
      exact Nat.le_add_right _ _
    have hsame := (Exp.reads hlength).unique (Exp.reads (Nat.le_refl _))
      (hrest.trans (List.append_nil _).symm)
    exact hsame.1

end Gpp
