import Homeworks.BankServer.Conservation

/-!
# Requests that are refused

A teller with the operations on `sh_lock` that it does before it exits.  If its request is for an
account that there is, or is not verified, a refusal changes nothing and gives the lock back.
-/

namespace BankServer

inductive LockOp where
  | wait
  | post
  deriving DecidableEq

/-- What a teller leaves when it exits. -/
structure Exit where
  shared : Shared
  served : Bool
  locks : List LockOp

/-- The operations of `assign_bankid`; the exit is in the region. -/
def assignLocks : Except Reply Shared → List LockOp
  | .ok _ => [.wait, .post]
  | .error _ => [.wait]

/-- A teller from its start to its exit.  There is a region for the verification, and one for the
reply if that fails. -/
def teller (s : Shared) (idx : Fin MAX_REQ) : Option Exit :=
  if verify (s.requests idx) ≠ 0 then
    some ⟨s, false, [.wait, .post] ++ [.wait, .post]⟩
  else
    match assignBankid s idx with
    | none => none
    | some (.error reply) => some ⟨s, false, [.wait, .post] ++ assignLocks (.error reply)⟩
    | some (.ok s') =>
        (processTransaction s' idx (isDeposit (s'.requests idx))).map fun outcome =>
          ⟨outcome.shared, outcome.served,
            [.wait, .post] ++ assignLocks (.ok s') ++ [.wait, .post]⟩

variable {s s' : Shared} {idx : Fin MAX_REQ} {e : Exit}

/-- A teller does what it does when the tellers run one at a time. -/
theorem teller_serve (s : Shared) (idx : Fin MAX_REQ) :
  (teller s idx).map (fun e => (e.shared, e.served)) = serve s idx
  := by
  rw [teller, serve]
  split
  · rfl
  · cases hassign : assignBankid s idx with
    | none => rfl
    | some result =>
        cases result with
        | error reply => rfl
        | ok s' =>
            dsimp only
            rw [Option.map_map]
            rfl

namespace Exit

/-- The accounts are as they were, and the lock has been released as often as it was taken. -/
structure Unchanged (s : Shared) (e : Exit) : Prop where
  accounts : e.shared.accounts = s.accounts
  active : e.shared.active = s.active
  released : e.locks.count .wait = e.locks.count .post

end Exit

/-- A request is for an account that there is. -/
def Existing (s : Shared) (r : Request) : Prop :=
  r.id ≠ "N".toList ∧ 0 ≤ account s r ∧ account s r ≤ s.active

/-- The number of accounts changes when an account is made. -/
theorem int_add_one_ne (n : Int) :
  CString.int (n + 1) ≠ n
  := by
  intro heq
  have hdvd : ((2 ^ 32 : Nat) : Int) ∣ CString.int (n + 1) - (n + 1) := Int.dvd_bmod_sub_self
  rw [heq] at hdvd
  omega

/-- A request is rejected if there is no such account. -/
theorem not_existing_of_error {reply : Reply} (h : assignBankid s idx = some (.error reply)) :
  ¬ Existing s (s.requests idx)
  := by
  rintro ⟨hid, hnonneg, hle⟩
  rw [assignBankid_existing hid rfl ⟨hnonneg, hle⟩] at h
  cases h

/-- The accounts and their number stay the same if and only if the request is for one of them. -/
theorem assigned_same_iff (h : assignBankid s idx = some (.ok s')) :
  (s'.accounts = s.accounts ∧ s'.active = s.active) ↔ Existing s (s.requests idx)
  := by
  by_cases hid : (s.requests idx).id = "N".toList
  · have hnot : ¬ Existing s (s.requests idx) := fun hexisting => hexisting.1 hid
    refine iff_of_false ?_ hnot
    rintro ⟨-, hactive⟩
    simp only [assignBankid, if_pos hid] at h
    split at h
    · cases h
      rw [account, if_pos hid] at hactive
      exact int_add_one_ne _ hactive
    · cases h
  · simp only [assignBankid, if_neg hid] at h
    split at h
    · cases h
    · rename_i hin
      rw [not_or, not_lt, not_lt] at hin
      cases h
      exact iff_of_true ⟨rfl, rfl⟩ ⟨hid, hin⟩

/-- A refusal after an account has been assigned changes nothing more. -/
theorem processTransaction_of_not_served {isDeposit : Bool} {outcome : Outcome}
    (h : processTransaction s idx isDeposit = some outcome) (hserved : outcome.served = false) :
  outcome.shared = s
  := by
  simp only [processTransaction] at h
  split at h
  · cases h
  · split at h
    · cases h
      cases hserved
    · split at h
      · cases h
        cases hserved
      · cases h
        rfl

/-- A refusal leaves everything as it was if and only if the request is not verified, or is for
an account that there is. -/
theorem refused_unchanged_iff (h : teller s idx = some e) (hserved : e.served = false) :
  e.Unchanged s ↔ verify (s.requests idx) ≠ 0 ∨ Existing s (s.requests idx)
  := by
  rw [teller] at h
  by_cases hverify : verify (s.requests idx) ≠ 0
  · rw [if_pos hverify] at h
    cases h
    exact iff_of_true ⟨rfl, rfl, rfl⟩ (.inl hverify)
  · rw [if_neg hverify] at h
    rw [or_iff_right hverify]
    cases hassign : assignBankid s idx with
    | none =>
        rw [hassign] at h
        cases h
    | some result =>
        rw [hassign] at h
        cases result with
        | error reply =>
            cases h
            refine iff_of_false ?_ (not_existing_of_error hassign)
            intro hunchanged
            have hreleased : 2 = 1 := hunchanged.released
            omega
        | ok s' =>
            obtain ⟨outcome, houtcome, rfl⟩ := Option.map_eq_some_iff.mp h
            have hshared := processTransaction_of_not_served houtcome hserved
            rw [← assigned_same_iff hassign, ← hshared]
            exact ⟨fun hunchanged => ⟨hunchanged.accounts, hunchanged.active⟩,
              fun hsame => ⟨hsame.1, hsame.2, rfl⟩⟩

/-- A bank with one account, and a request for more than there is on it. -/
def overdrawn : Shared :=
  { empty with
    requests := fun _ => .of "BankID_01" "withdraw" "100" "client_fifo_0"
    accounts := fun k => if k = 1 then ⟨1, 40, 0, 40⟩ else ⟨0, 0, 0, 0⟩
    active := 1 }

theorem refused_unchanged_iff_overdrawn :
  ∃ e, teller overdrawn 0 = some e ∧ e.served = false ∧ e.Unchanged overdrawn
  := by
  have hteller : teller overdrawn 0 = some _ := rfl
  refine ⟨_, hteller, rfl, (refused_unchanged_iff hteller rfl).mpr (.inr ?_)⟩
  exact ⟨by decide, by decide, by decide⟩

/-! ### An account that there is not -/

/-- A request for an account of an empty bank. -/
def strayRequest : Request := .of "BankID_05" "deposit" "10" "client_fifo_0"

theorem invalid_id_keeps_lock :
  ¬ ∀ rows db batch s idx e, loadDb rows = some db → storeRequests db 0 batch = some s →
    teller s idx = some e → e.served = false → e.Unchanged s
  := by
  intro hall
  have hverify : ¬ verify strayRequest ≠ 0 := by decide
  have hid : strayRequest.id ≠ "N".toList := by decide
  have hnumber : CString.atoi strayRequest.number = 5 := by decide
  have hstored : ∃ s, storeRequests empty 0 [strayRequest] = some s
      ∧ s.requests 0 = strayRequest ∧ s.active = 0 := ⟨_, rfl, rfl, rfl⟩
  obtain ⟨s, hs, hrequest, hactive⟩ := hstored
  have haccount : account s strayRequest = 5 := by rw [account, if_neg hid, hnumber]
  have hassign : assignBankid s 0 = some (.error (.invalidId (0 + 1) 5)) := by
    simp only [assignBankid, hrequest, if_neg hid, haccount, hactive]
    rfl
  have hteller : teller s 0 = some ⟨s, false, [.wait, .post, .wait]⟩ := by
    rw [teller, hrequest, if_neg hverify, hassign]
    rfl
  have hunchanged := hall [] empty [strayRequest] s 0 _ rfl hs hteller rfl
  have hreleased : 2 = 1 := hunchanged.released
  omega

end BankServer
