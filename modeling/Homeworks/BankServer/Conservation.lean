import Homeworks.BankServer.Tellers
import Mathlib.Algebra.BigOperators.Group.Finset.Basic

/-!
# Conservation of money

When the tellers run one at a time the balance of every account is what has been deposited
less what has been withdrawn, and the balances that are logged change by what has been served.
-/

open Relation

namespace BankServer

/-! ### The database -/

/-- The shared memory when it is created. -/
def empty : Shared := ⟨fun _ => .of "" "" "" "", fun _ => ⟨0, 0, 0, 0⟩, 0, 0⟩

/-- A line of the log is loaded. -/
def loadRow (s : Shared) (row : Account) : Option Shared :=
  (entry row.id).map fun i =>
    { s.setAccount i row with active := if row.id > s.active then row.id else s.active }

/-- What `load_db` does with the rows that it reads. -/
def loadDb (rows : List Account) : Option Shared := rows.foldlM loadRow empty

/-- The accounts that `write_log` writes. -/
def logged (s : Shared) : Finset (Fin MAX_CLI) :=
  Finset.univ.filter fun i => 1 ≤ i.val ∧ (i.val : Int) ≤ s.active

/-- The sum of the balances that `write_log` writes. -/
def loggedSum (s : Shared) : Int := ∑ i ∈ logged s, (s.accounts i).balance

/-! ### Tellers one at a time -/

/-- What a teller does with a request, and whether it serves it. -/
def serve (s : Shared) (idx : Fin MAX_REQ) : Option (Shared × Bool) :=
  if verify (s.requests idx) ≠ 0 then
    some (s, false)
  else
    match assignBankid s idx with
    | none => none
    | some (.error _) => some (s, false)
    | some (.ok s') =>
        (processTransaction s' idx (isDeposit (s'.requests idx))).map fun outcome =>
          (outcome.shared, outcome.served)

/-- What is deposited if a request is served. -/
def depositedBy (served : Bool) (r : Request) : Int :=
  if served && isDeposit r then CString.atoi r.credit else 0

/-- What is withdrawn if a request is served. -/
def withdrawnBy (served : Bool) (r : Request) : Int :=
  if served && !isDeposit r then CString.atoi r.credit else 0

/-- The bank with the tellers that have still to run, the number of its clients so far, and
what it has served. -/
structure Books where
  shared : Shared
  clientCount : Nat
  pending : List (Fin MAX_REQ)
  deposited : Int
  withdrawn : Int

inductive Event where
  /-- a batch of requests is received -/
  | receive (batch : List Request)
  /-- the next teller runs -/
  | teller

namespace Books

/-- The bank with a database. -/
def start (s : Shared) : Books := ⟨s, 0, [], 0, 0⟩

/-- A step of the bank.  After a store outside of an array anything may happen. -/
inductive Step : Event → Books → Books → Prop where
  | receive {x : Books} {batch : List Request} {s' : Shared} (hp : x.pending = [])
      (h : storeRequests x.shared x.clientCount batch = some s') :
    Step (.receive batch) x { x with
      shared := s'
      clientCount := x.clientCount + batch.length
      pending := (List.range batch.length).map fun i => Fin.ofNat MAX_REQ (x.clientCount + i) }
  | receiveOutside {x : Books} {batch : List Request} (x' : Books) (hp : x.pending = [])
      (h : storeRequests x.shared x.clientCount batch = none) :
    Step (.receive batch) x x'
  | teller {x : Books} {idx : Fin MAX_REQ} {rest : List (Fin MAX_REQ)} {s' : Shared}
      {served : Bool} (hp : x.pending = idx :: rest)
      (h : serve x.shared idx = some (s', served)) :
    Step .teller x { x with
      shared := s'
      pending := rest
      deposited := x.deposited + depositedBy served (x.shared.requests idx)
      withdrawn := x.withdrawn + withdrawnBy served (x.shared.requests idx) }
  | tellerOutside {x : Books} {idx : Fin MAX_REQ} {rest : List (Fin MAX_REQ)} (x' : Books)
      (hp : x.pending = idx :: rest) (h : serve x.shared idx = none) :
    Step .teller x x'

end Books

/-! ### The invariant -/

/-- An integer is an `int`. -/
def IsInt (n : Int) : Prop := -2 ^ 31 ≤ n ∧ n < 2 ^ 31

theorem isInt_zero :
  IsInt 0
  := by constructor <;> decide

/-- The balance of an account is what has been deposited less what has been withdrawn. -/
structure Account.Balanced (a : Account) : Prop where
  deposited : IsInt a.deposited
  withdrawn : IsInt a.withdrawn
  balance : a.balance = a.deposited - a.withdrawn
  bounds : 0 ≤ a.balance ∧ a.balance < 2 ^ 31

namespace Account.Balanced

variable {a : Account} {amount : Int}

/-- A deposit that is not too large. -/
theorem deposit (h : a.Balanced) (hamount : 0 ≤ amount) (hdeposited : a.deposited + amount < 2 ^ 31)
    (hbalance : a.balance + amount < 2 ^ 31) :
  CString.int (a.balance + amount) = a.balance + amount
    ∧ Account.Balanced { a with
      balance := CString.int (a.balance + amount)
      deposited := CString.int (a.deposited + amount) }
  := by
  have hlow := h.deposited.1
  have hbounds := h.bounds
  have heq := h.balance
  have hnext : CString.int (a.balance + amount) = a.balance + amount := by
    apply CString.int_eq <;> omega
  have hsum : CString.int (a.deposited + amount) = a.deposited + amount := by
    apply CString.int_eq <;> omega
  rw [hnext, hsum]
  refine ⟨rfl, ⟨?_, hdeposited⟩, h.withdrawn, ?_, ?_, ?_⟩
  all_goals
    dsimp only
    omega

/-- A withdrawal that the balance allows. -/
theorem withdraw (h : a.Balanced) (hamount : 0 ≤ amount) (henough : a.balance ≥ amount) :
  CString.int (a.balance - amount) = a.balance - amount
    ∧ Account.Balanced { a with
      balance := CString.int (a.balance - amount)
      withdrawn := CString.int (a.withdrawn + amount) }
  := by
  obtain ⟨hdeposited, hdeposited'⟩ := h.deposited
  obtain ⟨hwithdrawn, hwithdrawn'⟩ := h.withdrawn
  have hbounds := h.bounds
  have heq := h.balance
  have hnext : CString.int (a.balance - amount) = a.balance - amount := by
    apply CString.int_eq <;> omega
  have hsum : CString.int (a.withdrawn + amount) = a.withdrawn + amount := by
    apply CString.int_eq <;> omega
  rw [hnext, hsum]
  refine ⟨rfl, h.deposited, ⟨?_, ?_⟩, ?_, ?_, ?_⟩
  all_goals
    dsimp only
    omega

end Account.Balanced

/-- All accounts are balanced, and the accounts that are not in use are empty. -/
structure Ledger (s : Shared) : Prop where
  balanced : ∀ i, (s.accounts i).Balanced
  active : 0 ≤ s.active ∧ s.active < MAX_CLI
  unused : ∀ i, s.active < i.val → (s.accounts i).deposited = 0 ∧ (s.accounts i).withdrawn = 0

variable {s s' : Shared} {i : Fin MAX_CLI}

theorem ledger_empty :
  Ledger empty
  := by
  constructor
  · intro i
    exact ⟨isInt_zero, isInt_zero, rfl, le_rfl, isInt_zero.2⟩
  · decide
  · intro i _
    exact ⟨rfl, rfl⟩

theorem entry_val {id : Int} (h : entry id = some i) :
  (i.val : Int) = id
  := by
  simp only [entry] at h
  split at h
  · rename_i hin
    cases h
    simp [hin.1]
  · cases h

/-- A database of balanced rows is loaded. -/
theorem ledger_loadRow {row : Account} (hs : Ledger s) (hrow : row.Balanced)
    (h : loadRow s row = some s') :
  Ledger s'
  := by
  obtain ⟨i, hi, rfl⟩ := Option.map_eq_some_iff.mp h
  have hval := entry_val hi
  have hlt := i.isLt
  have hactive := hs.active
  constructor
  · intro j
    rcases eq_or_ne j i with rfl | hne
    · simpa [Shared.setAccount] using hrow
    · simpa [Shared.setAccount, hne] using hs.balanced j
  · dsimp only
    split <;> omega
  · intro j hj
    dsimp only at hj
    have hne : j ≠ i := by
      rintro rfl
      split at hj <;> omega
    have hgt : s.active < j.val := by
      split at hj <;> omega
    simpa [Shared.setAccount, hne] using hs.unused j hgt

theorem ledger_loadDb {rows : List Account} (hrows : ∀ row ∈ rows, row.Balanced)
    (h : loadDb rows = some s) :
  Ledger s
  := by
  have hfold : ∀ s₀, Ledger s₀ → rows.foldlM loadRow s₀ = some s → Ledger s := by
    clear h
    induction rows with
    | nil =>
        intro s₀ h₀ h
        cases h
        exact h₀
    | cons row rows ih =>
        intro s₀ h₀ h
        rw [List.foldlM_cons] at h
        obtain ⟨s₁, h₁, h⟩ := Option.bind_eq_some_iff.mp h
        apply ih (fun row' hrow' => hrows row' (List.mem_cons_of_mem _ hrow')) s₁ _ h
        apply ledger_loadRow h₀ (hrows row List.mem_cons_self) h₁
  apply hfold empty ledger_empty h

/-! ### What a teller changes -/

/-- A request is for a new account or for one that `assign_bankid` accepts. -/
def Accepted (s : Shared) (r : Request) : Prop :=
  r.id = "N".toList ∨ 0 ≤ account s r ∧ account s r ≤ s.active

@[simp] theorem mem_logged : i ∈ logged s ↔ 1 ≤ i.val ∧ (i.val : Int) ≤ s.active := by
  simp [logged]

@[simp] theorem logged_setAccount (a : Account) : logged (s.setAccount i a) = logged s := by
  ext j
  rw [mem_logged, mem_logged]
  rfl

/-- Where the row of one account changes the sum changes by its balance. -/
theorem loggedSum_setAccount (hi : i ∈ logged s) (a : Account) :
  loggedSum (s.setAccount i a) = loggedSum s - (s.accounts i).balance + a.balance
  := by
  have hupdate : (fun j => ((s.setAccount i a).accounts j).balance)
      = Function.update (fun j => (s.accounts j).balance) i a.balance := by
    funext j
    rcases eq_or_ne j i with rfl | hne
    · simp [Shared.setAccount]
    · simp [Shared.setAccount, hne]
  rw [loggedSum, logged_setAccount, hupdate]
  exact Table.sum_update hi _ _

/-- Where no account is in use none is logged. -/
theorem loggedSum_inactive (h : s.active = 0) :
  loggedSum s = 0
  := by
  apply Finset.sum_eq_zero
  intro i hi
  rw [mem_logged] at hi
  omega

/-- The row of one account is replaced by a balanced one. -/
theorem Ledger.setAccount (h : Ledger s) {a : Account} (ha : a.Balanced)
    (hi : (i.val : Int) ≤ s.active) :
  Ledger (s.setAccount i a)
  := by
  constructor
  · intro j
    rcases eq_or_ne j i with rfl | hne
    · simpa [Shared.setAccount] using ha
    · simpa [Shared.setAccount, hne] using h.balanced j
  · exact h.active
  · intro j hj
    have hne : j ≠ i := by
      rintro rfl
      exact hi.not_gt hj
    simpa [Shared.setAccount, hne] using h.unused j hj

/-- The account that is next becomes an empty account in use. -/
theorem Ledger.newAccount (h : Ledger s) (hi : (i.val : Int) = s.active + 1) (bId : Int) :
  let s' := { s.setAccount i { s.accounts i with id := i.val, balance := 0 } with
    active := i.val
    bId := bId }
  Ledger s' ∧ loggedSum s' = loggedSum s
  := by
  intro s'
  obtain ⟨hdeposited, hwithdrawn⟩ := h.unused i (by omega)
  have hlt := i.isLt
  have hactive := h.active
  have hbalanced := h.balanced i
  constructor
  · constructor
    · intro j
      rcases eq_or_ne j i with rfl | hne
      · have hbalance : (0 : Int) = (s.accounts j).deposited - (s.accounts j).withdrawn := by
          rw [hdeposited, hwithdrawn]
          rfl
        simpa [s', Shared.setAccount] using
          (⟨hbalanced.deposited, hbalanced.withdrawn, hbalance, le_rfl,
            isInt_zero.2⟩ :
            Account.Balanced { s.accounts j with id := j.val, balance := 0 })
      · simpa [s', Shared.setAccount, hne] using h.balanced j
    · dsimp only [s']
      omega
    · intro j hj
      dsimp only [s'] at hj
      have hne : j ≠ i := by
        rintro rfl
        exact lt_irrefl _ hj
      simpa [s', Shared.setAccount, hne] using h.unused j (by omega)
  · have hnotin : i ∉ logged s := by
      rw [mem_logged]
      omega
    have hinsert : logged s' = insert i (logged s) := by
      ext j
      rw [Finset.mem_insert, mem_logged, mem_logged, Fin.ext_iff]
      dsimp only [s']
      omega
    have hnew : (s'.accounts i).balance = 0 := by
      simp [s', Shared.setAccount]
    have hold : ∑ j ∈ logged s, (s'.accounts j).balance = loggedSum s := by
      apply Finset.sum_congr rfl
      intro j hj
      have hne : j ≠ i := by
        rintro rfl
        exact hnotin hj
      simp [s', Shared.setAccount, hne]
    rw [loggedSum, hinsert, Finset.sum_insert hnotin, hnew, hold, zero_add]

/-- What there is after an account has been assigned. -/
structure Assigned (s : Shared) (i : Fin MAX_CLI) (s' : Shared) : Prop where
  ledger : Ledger s'
  sum : loggedSum s' = loggedSum s
  requests : s'.requests = s.requests
  bId : entry s'.bId = some i
  inUse : (i.val : Int) ≤ s'.active
  deposited : (s'.accounts i).deposited = (s.accounts i).deposited
  balance : (s'.accounts i).balance = (s.accounts i).balance

theorem Ledger.assign (h : Ledger s) {idx : Fin MAX_REQ} (hs : Accepted s (s.requests idx))
    (hi : entry (account s (s.requests idx)) = some i) :
  ∃ s', assignBankid s idx = some (.ok s') ∧ Assigned s i s'
  := by
  have hval := entry_val hi
  by_cases hid : (s.requests idx).id = "N".toList
  · have hactive : 0 ≤ s.active ∧ s.active < (1000 : Nat) := h.active
    have hint : CString.int (s.active + 1) = s.active + 1 := by
      apply CString.int_eq <;> omega
    have hnext : account s (s.requests idx) = s.active + 1 := by
      rw [account, if_pos hid, hint]
    obtain ⟨hledger, hsum⟩ := h.newAccount (hval.trans hnext) i.val
    have hassign : assignBankid s idx
        = some (.ok { s.setAccount i { s.accounts i with id := i.val, balance := 0 } with
          active := i.val
          bId := i.val }) := by
      simp only [assignBankid, if_pos hid, hi, hval]
    refine ⟨_, hassign, hledger, hsum, rfl, ?_, le_rfl, ?_, ?_⟩
    · rw [hval]
      exact hi
    · simp [Shared.setAccount]
    · obtain ⟨hdeposited, hwithdrawn⟩ := h.unused i (by omega)
      rw [(h.balanced i).balance, hdeposited, hwithdrawn]
      simp [Shared.setAccount]
  · obtain ⟨hnonneg, hle⟩ := hs.resolve_left hid
    refine ⟨_, assignBankid_existing hid rfl ⟨hnonneg, hle⟩, ?_⟩
    constructor
    · exact ⟨h.balanced, h.active, h.unused⟩
    · rfl
    · rfl
    · exact hi
    · rw [hval]
      exact hle
    · rfl
    · rfl

theorem Ledger.process (h : Ledger s) {idx : Fin MAX_REQ} (hi : entry s.bId = some i)
    (hlogged : i ∈ logged s) (hamount : 0 ≤ CString.atoi (s.requests idx).credit)
    (hdeposit : isDeposit (s.requests idx) →
      (s.accounts i).deposited + CString.atoi (s.requests idx).credit < 2 ^ 31
      ∧ (s.accounts i).balance + CString.atoi (s.requests idx).credit < 2 ^ 31) :
  ∃ outcome, processTransaction s idx (isDeposit (s.requests idx)) = some outcome
    ∧ Ledger outcome.shared ∧ outcome.shared.requests = s.requests
    ∧ loggedSum outcome.shared = loggedSum s + depositedBy outcome.served (s.requests idx)
      - withdrawnBy outcome.served (s.requests idx)
  := by
  have hle := (mem_logged.mp hlogged).2
  have hrow := h.balanced i
  simp only [processTransaction, hi, depositedBy, withdrawnBy]
  cases hop : isDeposit (s.requests idx) with
  | true =>
      obtain ⟨hbalance, hnext⟩ := hrow.deposit hamount (hdeposit hop).1 (hdeposit hop).2
      refine ⟨_, rfl, h.setAccount hnext hle, rfl, ?_⟩
      dsimp only
      rw [loggedSum_setAccount hlogged, hbalance]
      simp only [Bool.and_true, Bool.not_true, Bool.and_false, if_true, Bool.false_eq_true,
        if_false]
      omega
  | false =>
      rw [if_neg Bool.false_ne_true]
      split
      · rename_i henough
        obtain ⟨hbalance, hnext⟩ := hrow.withdraw hamount henough
        refine ⟨_, rfl, h.setAccount hnext hle, rfl, ?_⟩
        dsimp only
        rw [loggedSum_setAccount hlogged, hbalance]
        simp only [Bool.and_false, Bool.not_false, Bool.and_true, if_true, Bool.false_eq_true,
          if_false]
        omega
      · refine ⟨_, rfl, h, rfl, ?_⟩
        simp

/-! ### Runs -/

namespace Books

/-- The requests received find room, the accounts served are there and logged, and they are
not full. -/
def Regular : Event → Books → Prop
  | .receive batch, x => x.clientCount + batch.length ≤ MAX_REQ
  | .teller, x => ∀ idx rest, x.pending = idx :: rest →
      let r := x.shared.requests idx
      let amount := CString.atoi r.credit
      verify r = 0 → Accepted x.shared r → ∃ i, entry (account x.shared r) = some i ∧ 1 ≤ i.val
        ∧ (isDeposit r → (x.shared.accounts i).deposited + amount < 2 ^ 31
          ∧ (x.shared.accounts i).balance + amount < 2 ^ 31)

/-- The balance of every account is what has been deposited less what has been withdrawn, and
the sum of the balances that are logged has changed by what has been served. -/
structure Conserved (base : Int) (x : Books) : Prop where
  accounts : ∀ i, (x.shared.accounts i).balance
    = (x.shared.accounts i).deposited - (x.shared.accounts i).withdrawn
  nonneg : ∀ i, 0 ≤ (x.shared.accounts i).balance
  sum : loggedSum x.shared = base + x.deposited - x.withdrawn

structure Sound (base : Int) (x : Books) : Prop where
  ledger : Ledger x.shared
  sum : loggedSum x.shared = base + x.deposited - x.withdrawn

end Books

/-- A request that is verified is for an amount that is not negative. -/
theorem amount_nonneg {r : Request} (h : verify r = 0) :
  0 ≤ CString.atoi r.credit
  := by
  by_contra hneg
  simp only [verify] at h
  split at h
  · cases h
  · split at h
    · cases h
    · split at h
      · cases h
      · rw [if_pos (not_le.mp hneg)] at h
        cases h

theorem not_accepted {idx : Fin MAX_REQ} (h : ¬ Accepted s (s.requests idx)) :
  ∃ reply, assignBankid s idx = some (.error reply)
  := by
  simp only [Accepted, not_or, not_and_or, not_le] at h
  use .invalidId (idx + 1) (account s (s.requests idx))
  simp only [assignBankid, if_neg h.1, if_pos h.2]

/-- What a teller does with a request for an account that is there and not full. -/
theorem Ledger.serve (h : Ledger s) {idx : Fin MAX_REQ}
    (hregular : verify (s.requests idx) = 0 → Accepted s (s.requests idx) →
      ∃ i, entry (account s (s.requests idx)) = some i ∧ 1 ≤ i.val
        ∧ (isDeposit (s.requests idx) →
          (s.accounts i).deposited + CString.atoi (s.requests idx).credit < 2 ^ 31
          ∧ (s.accounts i).balance + CString.atoi (s.requests idx).credit < 2 ^ 31)) :
  ∃ s' served, serve s idx = some (s', served) ∧ Ledger s'
    ∧ loggedSum s' = loggedSum s + depositedBy served (s.requests idx)
      - withdrawnBy served (s.requests idx)
  := by
  by_cases hverify : verify (s.requests idx) = 0
  · by_cases haccepted : Accepted s (s.requests idx)
    · obtain ⟨i, hi, hpos, hdeposit⟩ := hregular hverify haccepted
      obtain ⟨s₁, hassign, hassigned⟩ := h.assign haccepted hi
      rw [← hassigned.requests, ← hassigned.deposited, ← hassigned.balance] at hdeposit
      have hamount := amount_nonneg hverify
      rw [← hassigned.requests] at hamount
      have hlogged : i ∈ logged s₁ := mem_logged.mpr ⟨hpos, hassigned.inUse⟩
      obtain ⟨outcome, hprocess, hledger, -, hsum⟩ :=
        hassigned.ledger.process hassigned.bId hlogged hamount hdeposit
      refine ⟨outcome.shared, outcome.served, ?_, hledger, ?_⟩
      · simp only [BankServer.serve, hverify, ne_eq, not_true_eq_false, if_false, hassign, hprocess,
          Option.map_some]
      · rw [hsum, hassigned.sum, hassigned.requests]
    · obtain ⟨reply, hassign⟩ := not_accepted haccepted
      refine ⟨s, false, ?_, h, ?_⟩
      · simp only [BankServer.serve, hverify, ne_eq, not_true_eq_false, if_false, hassign]
      · simp [depositedBy, withdrawnBy]
  · refine ⟨s, false, ?_, h, ?_⟩
    · simp only [BankServer.serve, ne_eq, hverify, not_false_eq_true, if_true]
    · simp [depositedBy, withdrawnBy]

namespace Books

variable {base : Int} {x x' : Books}

theorem Sound.step (h : Sound base x) {e : Event} (hstep : Step e x x') (hregular : Regular e x) :
  Sound base x'
  := by
  cases hstep with
  | @receive _ batch _ hp hstore =>
      have hroom : x.clientCount + batch.length ≤ MAX_REQ := hregular
      rw [storeRequests, if_pos hroom] at hstore
      cases hstore
      exact ⟨⟨h.ledger.balanced, h.ledger.active, h.ledger.unused⟩, h.sum⟩
  | @receiveOutside _ batch _ hp hstore =>
      have hroom : x.clientCount + batch.length ≤ MAX_REQ := hregular
      rw [storeRequests, if_pos hroom] at hstore
      cases hstore
  | @teller _ idx rest _ _ hp hserve =>
      obtain ⟨s', served, hserve', hledger, hsum⟩ := h.ledger.serve (hregular idx rest hp)
      rw [hserve'] at hserve
      cases hserve
      refine ⟨hledger, ?_⟩
      dsimp only
      rw [hsum, h.sum]
      omega
  | @tellerOutside _ idx rest _ hp hserve =>
      obtain ⟨s', served, hserve', -⟩ := h.ledger.serve (hregular idx rest hp)
      rw [hserve'] at hserve
      cases hserve

/-- In every run in which the requests find room and the accounts served are logged and not
full, money is conserved. -/
theorem money_conserved (rows : List Account) (s : Shared) (x : Books)
    (hrows : ∀ row ∈ rows, row.Balanced) (hdb : loadDb rows = some s)
    (h : ReflTransGen (fun x x' => ∃ e, Step e x x' ∧ Regular e x) (start s) x) :
  Conserved (loggedSum s) x
  := by
  have hsound : Sound (loggedSum s) x := by
    apply Transition.invariant (I := Sound (loggedSum s)) _ h
    · refine ⟨ledger_loadDb hrows hdb, ?_⟩
      simp [start]
    · rintro x x' hx ⟨e, hstep, hregular⟩
      apply hx.step hstep hregular
  constructor
  · intro i
    apply (hsound.ledger.balanced i).balance
  · intro i
    apply (hsound.ledger.balanced i).bounds.1
  · exact hsound.sum

/-! ### The first request -/

/-- The shared memory with the first request. -/
def received (s : Shared) (r : Request) : Shared :=
  { s with requests := fun idx =>
    if 0 ≤ idx.val then [r].getD (idx - 0) (s.requests idx) else s.requests idx }

theorem step_received (s : Shared) (r : Request) :
  Step (.receive [r]) (start s) ⟨received s r, 1, [0], 0, 0⟩
  := .receive rfl rfl

/-- A deposit is served after an account has been assigned. -/
theorem step_served {s s₁ : Shared} {r : Request} {i : Fin MAX_CLI} (hverify : verify r = 0)
    (hdeposit : isDeposit r = true) (hassign : assignBankid (received s r) 0 = some (.ok s₁))
    (hi : entry s₁.bId = some i) :
  ∃ s', Step .teller ⟨received s r, 1, [0], 0, 0⟩ ⟨s', 1, [], CString.atoi r.credit, 0⟩
    ∧ s'.active = s₁.active
  := by
  have hrequests : s₁.requests = (received s r).requests := (assignBankid_spec hassign).2.1
  have hrequest : (received s r).requests 0 = r := rfl
  have hserve : serve (received s r) 0 = some (s₁.setAccount i
      { s₁.accounts i with
        balance := CString.int ((s₁.accounts i).balance + CString.atoi r.credit)
        deposited := CString.int ((s₁.accounts i).deposited + CString.atoi r.credit) }, true) := by
    simp only [serve, hrequest, hverify, ne_eq, not_true_eq_false, if_false, hassign, hrequests,
      hdeposit, processTransaction, hi, if_true, Option.map_some]
  have hstep := Step.teller (x := ⟨received s r, 1, [0], 0, 0⟩) rfl hserve
  simp only [depositedBy, withdrawnBy, hrequest, hdeposit, Bool.and_true, Bool.not_true,
    Bool.and_false, if_true, Bool.false_eq_true, if_false, zero_add] at hstep
  exact ⟨_, hstep, rfl⟩

/-- A deposit to a new account. -/
def newRequest : Request := .of "N" "deposit" "100" "client_fifo_0"

/-- A deposit to an account with number zero. -/
def zeroRequest : Request := .of "BankID_00" "deposit" "100" "client_fifo_0"

theorem account_new : account (received empty newRequest) newRequest = 1 := by decide

theorem account_zero : account (received empty zeroRequest) zeroRequest = 0 := by decide

theorem verify_new : verify newRequest = 0 := by decide

theorem verify_zero : verify zeroRequest = 0 := by decide

theorem assignBankid_new :
  ∃ s₁, assignBankid (received empty newRequest) 0 = some (.ok s₁) ∧ s₁.bId = 1
  := by
  have hid : ((received empty newRequest).requests 0).id = "N".toList := by decide
  have haccount : account (received empty newRequest) ((received empty newRequest).requests 0)
    = 1 :=
    account_new
  have hentry : entry 1 = some 1 := rfl
  simp only [assignBankid, if_pos hid, haccount, hentry]
  exact ⟨_, rfl, rfl⟩

/-- A deposit to a new account is logged. -/
theorem money_conserved_deposit :
  ∃ s, Conserved 0 ⟨s, 1, [], 100, 0⟩
  := by
  obtain ⟨s₁, hassign, hbId⟩ := assignBankid_new
  have hi : entry s₁.bId = some 1 := by
    rw [hbId]
    rfl
  obtain ⟨s', hstep, -⟩ := step_served verify_new (by decide) hassign hi
  have hcredit : CString.atoi newRequest.credit = 100 := by decide
  rw [hcredit] at hstep
  use s'
  have hfirst : Regular (.receive [newRequest]) (start empty) := by
    rw [Regular]
    decide
  have hsecond : Regular .teller ⟨received empty newRequest, 1, [0], 0, 0⟩ := by
    rintro idx rest ⟨⟩ r amount - -
    have haccount : account (received empty newRequest) r = 1 := account_new
    have hamount : amount = 100 := hcredit
    rw [haccount, hamount]
    refine ⟨1, rfl, le_rfl, ?_⟩
    intro _
    decide
  have hrun : ReflTransGen (fun x x' => ∃ e, Step e x x' ∧ Regular e x) (start empty)
      ⟨s', 1, [], 100, 0⟩ :=
    .tail (.single ⟨_, step_received empty newRequest, hfirst⟩) ⟨_, hstep, hsecond⟩
  have hconserved := money_conserved [] empty _ (by simp) rfl hrun
  rw [loggedSum_inactive rfl] at hconserved
  exact hconserved

/-- A deposit to the account with number zero is not logged. -/
theorem deposit_not_logged :
  ¬ ∀ rows s x, loadDb rows = some s →
    ReflTransGen (fun x x' => ∃ e, Step e x x') (start s) x → Conserved (loggedSum s) x
  := by
  intro hall
  have hid : ((received empty zeroRequest).requests 0).id ≠ "N".toList := by decide
  have hassign := assignBankid_existing hid account_zero ⟨le_rfl, le_rfl⟩
  obtain ⟨s', hstep, hactive⟩ := step_served verify_zero (by decide) hassign rfl
  have hcredit : CString.atoi zeroRequest.credit = 100 := by decide
  rw [hcredit] at hstep
  have hrun : ReflTransGen (fun x x' => ∃ e, Step e x x') (start empty) ⟨s', 1, [], 100, 0⟩ :=
    .tail (.single ⟨_, step_received empty zeroRequest⟩) ⟨_, hstep⟩
  have hsum := (hall [] empty _ rfl hrun).sum
  rw [loggedSum_inactive hactive, loggedSum_inactive rfl] at hsum
  cases hsum

end Books

end BankServer
