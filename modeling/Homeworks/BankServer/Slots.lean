import Homeworks.BankServer.Refusals

/-!
# The slots of requests

The batches that `bank_loop` receives, where some reads fail.  The index of a request goes on after
a read that fails, but the number of clients does not; if only the last reads of a batch fail then
every request has a slot of its own.
-/

namespace BankServer

/-- What the reads of a batch return; a read that fails returns nothing. -/
abbrev Batch := List (Option Request)

/-- A request that has not been stored. -/
def blank : Request := .of "" "" "" ""

/-- The server with the slots that requests were stored in, and what each teller was to serve and
has found in its slot. -/
structure Loop where
  requests : Fin MAX_REQ → Request
  clientCount : Nat
  slots : List Nat
  tellers : List (Option Request × Request)

namespace Loop

/-- The server before its first batch. -/
def start : Loop := ⟨fun _ => blank, 0, [], []⟩

/-- The body of the loop that reads the requests.  A store outside of the array has no result. -/
def storeRead (baseId i : Nat) (x : Loop) : Option Request → Option Loop
  | none => some x
  | some r =>
      if h : i + baseId < MAX_REQ then
        some { x with
          requests := Function.update x.requests ⟨i + baseId, h⟩ r
          clientCount := x.clientCount + 1
          slots := (i + baseId) :: x.slots }
      else
        none

def storeReads (baseId : Nat) : Nat → Loop → Batch → Option Loop
  | _, x, [] => some x
  | i, x, read :: batch => (x.storeRead baseId i read).bind fun x =>
    storeReads baseId (i + 1) x batch

/-- A teller reads the request of its slot; also the ones whose request could not be read. -/
def fork (baseId i : Nat) (x : Loop) (read : Option Request) : Option Loop :=
  if h : i + baseId < MAX_REQ then
    some { x with tellers := (read, x.requests ⟨i + baseId, h⟩) :: x.tellers }
  else
    none

def forks (baseId : Nat) : Nat → Loop → Batch → Option Loop
  | _, x, [] => some x
  | i, x, read :: batch => (x.fork baseId i read).bind fun x => forks baseId (i + 1) x batch

/-- A turn of `bank_loop`. -/
def receive (x : Loop) (batch : Batch) : Option Loop :=
  (x.storeReads x.clientCount 0 batch).bind fun y => y.forks x.clientCount 0 batch

end Loop

/-- The run of `bank_loop` for some batches. -/
def bankLoop (batches : List Batch) : Option Loop := batches.foldlM Loop.receive .start

/-- The number of requests that are read. -/
def received (batch : Batch) : Nat := batch.countP Option.isSome

/-- No request is read after a read that has failed. -/
def FailsLast (batch : Batch) : Prop := batch.Pairwise fun a b => a = none → b = none

/-- When the batches after some clients have slots of their own: only the last reads of a batch
fail, and there are slots for all of it. -/
def Fit : Nat → List Batch → Prop
  | _, [] => True
  | clientCount, batch :: batches =>
      FailsLast batch ∧ clientCount + batch.length ≤ MAX_REQ
        ∧ Fit (clientCount + received batch) batches

instance (batch : Batch) : Decidable (FailsLast batch) :=
  inferInstanceAs (Decidable (List.Pairwise _ _))

instance Fit.decidable :
    (clientCount : Nat) → (batches : List Batch) → Decidable (Fit clientCount batches)
  | _, [] => isTrue trivial
  | clientCount, batch :: batches =>
      have := Fit.decidable (clientCount + received batch) batches
      inferInstanceAs (Decidable (_ ∧ _ ∧ _))

namespace Loop

variable {x : Loop} {baseId i : Nat} {batch : Batch} {batches : List Batch}

/-- The slots before the number of clients are in use, and no others are. -/
structure Tidy (x : Loop) : Prop where
  nodup : x.slots.Nodup
  below : ∀ slot ∈ x.slots, slot < x.clientCount
  length_eq : x.slots.length = x.clientCount
  unused : ∀ idx : Fin MAX_REQ, x.clientCount ≤ idx.val → x.requests idx = blank

theorem tidy_start :
  start.Tidy
  := ⟨List.nodup_nil, fun _ h => absurd h List.not_mem_nil, rfl, fun _ _ => rfl⟩

/-- A request is stored in the next slot. -/
theorem Tidy.storeRead (hx : x.Tidy) (hi : i + baseId = x.clientCount)
    (hlt : x.clientCount < MAX_REQ) (r : Request) :
  ∃ x', x.storeRead baseId i (some r) = some x' ∧ x'.Tidy ∧ x'.clientCount = x.clientCount + 1
    ∧ x'.tellers = x.tellers ∧ x'.requests ⟨x.clientCount, hlt⟩ = r
    ∧ ∀ idx : Fin MAX_REQ, idx.val ≠ x.clientCount → x'.requests idx = x.requests idx
  := by
  have hothers : ∀ idx : Fin MAX_REQ, idx.val ≠ x.clientCount →
      Function.update x.requests ⟨x.clientCount, hlt⟩ r idx = x.requests idx :=
    fun idx hidx => Function.update_of_ne (fun heq => hidx (congrArg Fin.val heq)) _ _
  have hstore : x.storeRead baseId i (some r)
      = some ⟨Function.update x.requests ⟨x.clientCount, hlt⟩ r, x.clientCount + 1,
        x.clientCount :: x.slots, x.tellers⟩ := by
    simp only [Loop.storeRead, hi, dif_pos hlt]
  refine ⟨_, hstore, ⟨?_, ?_, ?_, ?_⟩, rfl, rfl, Function.update_self _ _ _, hothers⟩
  · exact List.nodup_cons.mpr ⟨fun hmem => Nat.lt_irrefl _ (hx.below _ hmem), hx.nodup⟩
  · intro slot hslot
    rcases List.mem_cons.mp hslot with rfl | hslot
    · exact Nat.lt_succ_self _
    · exact Nat.lt_succ_of_lt (hx.below slot hslot)
  · exact congrArg Nat.succ hx.length_eq
  · intro idx hidx
    exact (hothers idx (Nat.ne_of_gt hidx)).trans (hx.unused idx (Nat.le_of_succ_le hidx))

/-- Reads that fail store nothing. -/
theorem storeReads_of_fail (h : ∀ read ∈ batch, read = none) :
  x.storeReads baseId i batch = some x
  := by
  induction batch generalizing i with
  | nil => rfl
  | cons read batch ih =>
      rw [h read List.mem_cons_self]
      exact ih fun read hread => h read (List.mem_cons_of_mem _ hread)

theorem received_of_fail (h : ∀ read ∈ batch, read = none) :
  received batch = 0
  := by
  rw [received, List.countP_eq_zero]
  intro read hread
  rw [h read hread]
  exact Bool.false_ne_true

/-- What the loop that reads the requests has done. -/
structure Stored (x : Loop) (batch : Batch) (x' : Loop) : Prop where
  tidy : x'.Tidy
  clientCount : x'.clientCount = x.clientCount + received batch
  tellers : x'.tellers = x.tellers
  before : ∀ idx : Fin MAX_REQ, idx.val < x.clientCount → x'.requests idx = x.requests idx
  own : ∀ j read, batch[j]? = some read → ∀ idx : Fin MAX_REQ, idx.val = x.clientCount + j →
    x'.requests idx = read.getD blank

/-- Requests are stored one after the other until a read fails. -/
theorem Tidy.storeReads (hx : x.Tidy) (hi : i + baseId = x.clientCount) (hfails : FailsLast batch)
    (hle : x.clientCount + batch.length ≤ MAX_REQ) :
  ∃ x', x.storeReads baseId i batch = some x' ∧ x.Stored batch x'
  := by
  induction batch generalizing x i with
  | nil =>
      refine ⟨x, rfl, hx, rfl, rfl, fun _ _ => rfl, ?_⟩
      intro j read hread
      cases hread
  | cons read batch ih =>
      obtain ⟨hnone, hrest⟩ := List.pairwise_cons.mp hfails
      rw [List.length_cons] at hle
      cases read with
      | none =>
          have hall : ∀ read ∈ none :: batch, read = none := by
            intro read hread
            rcases List.mem_cons.mp hread with rfl | hread
            · rfl
            · exact hnone read hread rfl
          refine ⟨x, storeReads_of_fail hall, hx, ?_, rfl, fun _ _ => rfl, ?_⟩
          · rw [received_of_fail hall]
            rfl
          · intro j read hread idx hidx
            rw [hall read (List.mem_of_getElem? hread)]
            exact hx.unused idx (by omega)
      | some r =>
          obtain ⟨x₁, hstore, hx₁, hcount, htellers, hown, hothers⟩ :=
            hx.storeRead hi (by omega) r
          obtain ⟨x', hx', hstored⟩ := ih (i := i + 1) hx₁ (by omega) hrest (by omega)
          refine ⟨x', ?_, hstored.tidy, ?_, hstored.tellers.trans htellers, ?_, ?_⟩
          · rw [Loop.storeReads, hstore]
            exact hx'
          · have hreceived : received (some r :: batch) = received batch + 1 :=
              List.countP_cons_of_pos rfl
            rw [hstored.clientCount, hcount, hreceived]
            omega
          · intro idx hidx
            rw [hstored.before idx (by omega), hothers idx (by omega)]
          · intro j read hread idx hidx
            cases j with
            | zero =>
                cases hread
                have heq : idx = ⟨x.clientCount, by omega⟩ := Fin.ext hidx
                rw [hstored.before idx (by omega), heq]
                exact hown
            | succ j => exact hstored.own j read hread idx (by omega)

/-- The tellers find the requests of their slots. -/
theorem forks_eq (hle : i + baseId + batch.length ≤ MAX_REQ)
    (hown : ∀ j read, batch[j]? = some read → ∀ idx : Fin MAX_REQ, idx.val = i + baseId + j →
      x.requests idx = read.getD blank) :
  ∃ x', x.forks baseId i batch = some x' ∧ x'.requests = x.requests
    ∧ x'.clientCount = x.clientCount ∧ x'.slots = x.slots
    ∧ ∀ t ∈ x'.tellers, t ∈ x.tellers ∨ t.2 = t.1.getD blank
  := by
  induction batch generalizing x i with
  | nil => exact ⟨x, rfl, rfl, rfl, rfl, fun _ => .inl⟩
  | cons read batch ih =>
      rw [List.length_cons] at hle
      have hlt : i + baseId < MAX_REQ := by omega
      have hfound : x.requests ⟨i + baseId, hlt⟩ = read.getD blank := hown 0 read rfl _ rfl
      have hfork : x.fork baseId i read
          = some { x with tellers := (read, x.requests ⟨i + baseId, hlt⟩) :: x.tellers } :=
        dif_pos hlt
      obtain ⟨x', hx', hrequests, hcount, hslots, htellers⟩ := ih (i := i + 1)
        (x := { x with tellers := (read, x.requests ⟨i + baseId, hlt⟩) :: x.tellers }) (by omega)
        fun j read hread idx hidx => hown (j + 1) read hread idx (by omega)
      refine ⟨x', ?_, hrequests, hcount, hslots, ?_⟩
      · rw [forks, hfork]
        exact hx'
      · intro t ht
        rcases htellers t ht with hmem | hown'
        · rcases List.mem_cons.mp hmem with rfl | hmem
          · exact .inr hfound
          · exact .inl hmem
        · exact .inr hown'

/-- What holds between two turns of `bank_loop`. -/
structure Sound (x : Loop) : Prop where
  tidy : x.Tidy
  le : x.clientCount ≤ MAX_REQ
  own : ∀ t ∈ x.tellers, t.2 = t.1.getD blank

theorem Sound.receive (hx : x.Sound) (hfails : FailsLast batch)
    (hle : x.clientCount + batch.length ≤ MAX_REQ) :
  ∃ x', x.receive batch = some x' ∧ x'.Sound ∧ x'.clientCount = x.clientCount + received batch
  := by
  obtain ⟨y, hy, hstored⟩ := hx.tidy.storeReads (Nat.zero_add _) hfails hle
  have hcount : received batch ≤ batch.length := List.countP_le_length
  obtain ⟨x', hx', hrequests, hcount', hslots, htellers⟩ := forks_eq (x := y) (i := 0)
    (by rwa [Nat.zero_add]) (by rw [Nat.zero_add]; exact hstored.own)
  refine ⟨x', ?_, ⟨⟨?_, ?_, ?_, ?_⟩, ?_, ?_⟩, hcount'.trans hstored.clientCount⟩
  · rw [Loop.receive, hy]
    exact hx'
  · rw [hslots]
    exact hstored.tidy.nodup
  · rw [hslots, hcount']
    exact hstored.tidy.below
  · rw [hslots, hcount']
    exact hstored.tidy.length_eq
  · rw [hrequests, hcount']
    exact hstored.tidy.unused
  · rw [hcount', hstored.clientCount]
    omega
  · intro t ht
    rcases htellers t ht with hmem | hown
    · rw [hstored.tellers] at hmem
      exact hx.own t hmem
    · exact hown

theorem Sound.run (hx : x.Sound) (hfit : Fit x.clientCount batches) :
  ∃ x', batches.foldlM Loop.receive x = some x' ∧ x'.Sound
    ∧ x'.clientCount = x.clientCount + (batches.map received).sum
  := by
  induction batches generalizing x with
  | nil => exact ⟨x, rfl, hx, rfl⟩
  | cons batch batches ih =>
      obtain ⟨hfails, hle, hfit⟩ := hfit
      obtain ⟨x₁, hx₁, hsound, hcount⟩ := hx.receive hfails hle
      rw [← hcount] at hfit
      obtain ⟨x', hx', hsound', hcount'⟩ := ih hsound hfit
      refine ⟨x', ?_, hsound', ?_⟩
      · rw [List.foldlM_cons, hx₁]
        exact hx'
      · rw [hcount', hcount, List.map_cons, List.sum_cons, Nat.add_assoc]

end Loop

/-- In a run whose batches fit, all requests have slots of their own, and every teller finds the
request that it is to serve, or a slot that nothing has been stored in if its request could not
be read. -/
theorem bankLoop_slots (batches : List Batch) (h : Fit 0 batches) :
  ∃ x, bankLoop batches = some x ∧ x.slots.Nodup ∧ (∀ slot ∈ x.slots, slot < MAX_REQ)
    ∧ x.slots.length = (batches.map received).sum
    ∧ ∀ t ∈ x.tellers, t.2 = t.1.getD blank
  := by
  have hstart : Loop.start.Sound := by
    refine ⟨Loop.tidy_start, Nat.zero_le _, ?_⟩
    intro t ht
    cases ht
  obtain ⟨x, hx, hsound, hcount⟩ := hstart.run h
  refine ⟨x, hx, hsound.tidy.nodup, ?_, ?_, hsound.own⟩
  · exact fun slot hslot => (hsound.tidy.below slot hslot).trans_le hsound.le
  · rw [hsound.tidy.length_eq, hcount]
    exact Nat.zero_add _

theorem bankLoop_slots_two :
  ∃ x, bankLoop [[some strayRequest, none], [some strayRequest]] = some x ∧ x.slots.Nodup
    ∧ (∀ slot ∈ x.slots, slot < MAX_REQ)
    ∧ x.slots.length = ([[some strayRequest, none], [some strayRequest]].map received).sum
    ∧ ∀ t ∈ x.tellers, t.2 = t.1.getD blank
  := bankLoop_slots _ (by decide)

/-- The first read of a batch fails, and the request of the next batch is stored in the slot of
the second one. -/
theorem slot_used_twice :
  ¬ ∀ batches, ∃ x, bankLoop batches = some x ∧ x.slots.Nodup ∧ ∀ slot ∈ x.slots, slot < MAX_REQ
  := by
  intro hall
  obtain ⟨x, hx, hnodup, -⟩ := hall [[none, some strayRequest], [some strayRequest]]
  have hslots : x.slots = [1, 1] := by
    cases hx
    rfl
  rw [hslots] at hnodup
  revert hnodup
  decide

end BankServer
