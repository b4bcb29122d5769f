import Homeworks.Daemon.Processes

/-!
# The numbers that the children get

Whatever fails and whoever is killed, the first child reads the numbers and the command that the
parent has written, and the second child only reads the larger number.
-/

open Relation

namespace Daemon

variable {num1 num2 : BitVec 32} {s t : State} {a : Action}

/-! ### Messages -/

theorem ofBytes_intBytes (x : BitVec 32) :
  ofBytes (intBytes x) = some x
  := by
  rw [intBytes, ofBytes]
  congr 1
  ext i hi
  change (x.extractLsb' 24 8 ++ x.extractLsb' 16 8 ++ x.extractLsb' 8 8
    ++ x.extractLsb' 0 8).getLsbD i = x.getLsbD i
  simp only [BitVec.getLsbD_append, BitVec.getLsbD_extractLsb']
  grind

theorem ofBytes_take (x : BitVec 32) (bytes : List Byte) :
  ofBytes ((intBytes x ++ bytes).take 4) = some x
  := ofBytes_intBytes x

theorem drop_intBytes (x : BitVec 32) (bytes : List Byte) :
  (intBytes x ++ bytes).drop 4 = bytes
  := rfl

theorem string_cmd :
  string cmd = some (bytesOf "larger")
  := by decide

/-! ### What has been written and not been read -/

/-- The bytes in `fifo1` before the first child is started. -/
def Parent.sent (num1 num2 : BitVec 32) : Parent → Option (List Byte)
  | mkfifo1 | mkfifo2 | open1 | opened | writeNum1 => some []
  | writeNum2 => some (intBytes num1)
  | writeCmd => some (intBytes num1 ++ intBytes num2)
  | wrote | fork1 => some (intBytes num1 ++ intBytes num2 ++ cmd)
  | _ => .none

/-- The parent has opened `fifo1`. -/
def Parent.Opened : Parent → Prop
  | mkfifo1 | mkfifo2 | open1 => False
  | _ => True

/-- The bytes that the first child has still to read. -/
def Child1.unread (num1 num2 : BitVec 32) : Child1 → Option (List Byte)
  | started | open1 | readNum1 => some (intBytes num1 ++ intBytes num2 ++ cmd)
  | readNum2 _ => some (intBytes num2 ++ cmd)
  | readCmd _ _ => some cmd
  | _ => .none

/-- The descriptors of `fifo1` that the first child has at least. -/
def Child1.needs : Child1 → ℕ
  | .none | exited _ | killed => 0
  | started | open1 | close2 | exit _ => 1
  | _ => 2

/-- What the first child has read. -/
def Child1.Correct (num1 num2 : BitVec 32) : Child1 → Prop
  | readNum2 x => x = some num1
  | readCmd x y | open2 x y => x = some num1 ∧ y = some num2
  | compare x y text | read x y text => x = some num1 ∧ y = some num2 ∧ text = cmd
  | write x | wrote x => x = larger num1 num2
  | _ => True

structure Fed (num1 num2 : BitVec 32) (s : State) : Prop where
  sent : ∀ bytes, s.parent.sent num1 num2 = some bytes →
    s.child1 = .none ∧ s.child2 = .none ∧ s.fifo1.content = bytes
      ∧ (s.parent.Opened → s.fifo1.descriptors .parent ≠ 0)
  unread : ∀ bytes, s.child1.unread num1 num2 = some bytes → s.fifo1.content = bytes
  needs : s.child1.needs ≤ s.fifo1.descriptors .child1
  correct : s.child1.Correct num1 num2

theorem Fed.initial (named1 named2 : Bool) :
  Fed num1 num2 (.initial named1 named2)
  := by
  constructor <;> simp [State.initial, Parent.sent, Parent.Opened, Child1.unread, Child1.needs,
    Child1.Correct]

theorem Child1.needs_of_unread {pc : Child1} {bytes : List Byte}
    (h : pc.unread num1 num2 = some bytes) :
  1 ≤ pc.needs
  := by
  cases pc <;> first | cases h; done | simp [needs]

/-- The descriptors of the other processes come and go. -/
theorem Fed.hold {p : Process} {n : ℕ} (h : Fed num1 num2 s) (hp : p ≠ .child1)
    (hfifo1 : t.fifo1 = s.fifo1.hold p n) (hchild1 : t.child1 = s.child1)
    (hparent : t.parent.sent num1 num2 = none) :
  Fed num1 num2 t
  := by
  have hdescriptors : t.fifo1.descriptors .child1 = s.fifo1.descriptors .child1 := by
    rw [hfifo1, Fifo.hold_descriptors, Function.update_of_ne hp.symm]
  refine ⟨?_, ?_, ?_, ?_⟩
  · intro bytes hbytes
    cases hparent.symm.trans hbytes
  · intro bytes hbytes
    rw [hchild1] at hbytes
    rw [← h.unread bytes hbytes, hfifo1]
    have hneeds := Child1.needs_of_unread hbytes
    apply Fifo.hold_content (q := .child1)
    rw [Function.update_of_ne hp.symm]
    have := h.needs
    omega
  · rw [hdescriptors, hchild1]
    exact h.needs
  · rw [hchild1]
    exact h.correct

/-- The first child and its pipe are left as they are. -/
theorem Fed.keep (h : Fed num1 num2 s) (hcontent : t.fifo1.content = s.fifo1.content)
    (hdescriptors : t.fifo1.descriptors = s.fifo1.descriptors) (hchild1 : t.child1 = s.child1)
    (hparent : t.parent.sent num1 num2 = none) :
  Fed num1 num2 t
  := by
  refine ⟨?_, ?_, ?_, ?_⟩
  · intro bytes hbytes
    cases hparent.symm.trans hbytes
  · rw [hchild1, hcontent]
    exact h.unread
  · rw [hchild1, hdescriptors]
    exact h.needs
  · rw [hchild1]
    exact h.correct

/-- The first child has not been started. -/
theorem Fed.before (hchild1 : t.child1 = .none) (hchild2 : t.child2 = .none) {bytes : List Byte}
    (hsent : t.parent.sent num1 num2 = some bytes) (hcontent : t.fifo1.content = bytes)
    (hheld : t.parent.Opened → t.fifo1.descriptors .parent ≠ 0) :
  Fed num1 num2 t
  := by
  refine ⟨?_, ?_, ?_, ?_⟩
  · intro bytes' hbytes'
    cases hsent.symm.trans hbytes'
    exact ⟨hchild1, hchild2, hcontent, hheld⟩
  all_goals simp [hchild1, Child1.unread, Child1.needs, Child1.Correct]

theorem Fed.main (h : Fed num1 num2 s) {fails : Bool} (hstep : s.main num1 num2 fails = some t) :
  Fed num1 num2 t
  := by
  have hsent := h.sent
  unfold State.main at hstep
  cases hpc : s.parent with
  | mkfifo1 =>
      simp only [hpc] at hstep hsent
      obtain ⟨hchild1, hchild2, -⟩ := hsent _ rfl
      split_ifs at hstep <;> cases hstep
      · exact h.keep rfl rfl rfl rfl
      · exact .before hchild1 hchild2 rfl rfl False.elim
  | mkfifo2 =>
      simp only [hpc] at hstep hsent
      obtain ⟨hchild1, hchild2, hcontent, -⟩ := hsent _ rfl
      split_ifs at hstep <;> cases hstep
      · exact h.keep rfl rfl rfl rfl
      · exact .before hchild1 hchild2 rfl hcontent False.elim
  | open1 =>
      simp only [hpc] at hstep hsent
      obtain ⟨hchild1, hchild2, hcontent, -⟩ := hsent _ rfl
      split_ifs at hstep <;> cases hstep
      · exact h.keep rfl rfl rfl rfl
      · exact .before hchild1 hchild2 rfl (Fifo.hold_content_nil hcontent) (by simp [Fifo.openBy])
  | opened | wrote =>
      simp only [hpc] at hstep hsent
      obtain ⟨hchild1, hchild2, hcontent, hheld⟩ := hsent _ rfl
      cases hstep
      exact .before hchild1 hchild2 rfl hcontent fun _ => hheld trivial
  | writeNum1 | writeNum2 | writeCmd =>
      simp only [hpc] at hstep hsent
      obtain ⟨hchild1, hchild2, hcontent, hheld⟩ := hsent _ rfl
      split_ifs at hstep <;> cases hstep
      · exact h.hold (p := .parent) (by decide) rfl rfl rfl
      · exact .before hchild1 hchild2 rfl (by simp [Fifo.write, hcontent])
          fun _ => hheld trivial
  | fork1 =>
      simp only [hpc] at hstep hsent
      obtain ⟨hchild1, hchild2, hcontent, hheld⟩ := hsent _ rfl
      split_ifs at hstep <;> cases hstep
      · exact h.keep rfl rfl rfl rfl
      · have hparent : s.fifo1.descriptors .parent ≠ 0 := hheld trivial
        refine ⟨nofun, ?_, ?_, trivial⟩
        · rintro _ ⟨⟩
          rw [← hcontent]
          exact Fifo.hold_content (q := .child1) (by simpa using hparent)
        · simp only [Fifo.forkOf, Fifo.hold_descriptors, Function.update_self, Child1.needs]
          omega
  | fork2 =>
      simp only [hpc] at hstep hsent
      split_ifs at hstep <;> cases hstep
      · exact h.keep rfl rfl rfl rfl
      · exact h.hold (p := .child2) (by decide) rfl rfl rfl
  | install signal =>
      simp only [hpc] at hstep hsent
      split_ifs at hstep <;> cases hstep
      · exact h.keep rfl rfl rfl rfl
      · exact h.keep rfl rfl rfl (by cases signal <;> rfl)
  | test =>
      simp only [hpc] at hstep hsent
      cases hstep
      exact h.keep rfl rfl rfl (by split_ifs <;> rfl)
  | installChild | proceed | unlink1 _ | unlink2 _ | unlinkFirst =>
      simp only [hpc] at hstep hsent
      split_ifs at hstep <;> cases hstep <;> exact h.keep rfl rfl rfl rfl
  | close1 | exit _ =>
      simp only [hpc] at hstep hsent
      cases hstep
      exact h.hold (p := .parent) (by decide) rfl rfl rfl
  | success | closeLog _ =>
      simp only [hpc] at hstep hsent
      cases hstep
      exact h.keep rfl rfl rfl rfl
  | exited _ | killed =>
      simp only [hpc] at hstep hsent
      cases hstep

/-- The first child goes on. -/
theorem Fed.next (h : Fed num1 num2 s) (hparent : t.parent = s.parent) (hne : s.child1 ≠ .none)
    (hunread : ∀ bytes, t.child1.unread num1 num2 = some bytes → t.fifo1.content = bytes)
    (hneeds : t.child1.needs ≤ t.fifo1.descriptors .child1)
    (hcorrect : t.child1.Correct num1 num2) :
  Fed num1 num2 t
  := by
  refine ⟨?_, hunread, hneeds, hcorrect⟩
  intro bytes hbytes
  rw [hparent] at hbytes
  exact absurd (h.sent bytes hbytes).1 hne

theorem Fed.childProcess1 (h : Fed num1 num2 s) {fails : Bool}
    (hstep : s.childProcess1 fails = some t) :
  Fed num1 num2 t
  := by
  have hunread := h.unread
  have hneeds := h.needs
  have hcorrect := h.correct
  unfold State.childProcess1 at hstep
  have hne : s.child1 ≠ .none := by
    intro hpc
    simp only [hpc] at hstep
    cases hstep
  cases hpc : s.child1 with
  | none | exited _ | killed =>
      simp only [hpc] at hstep
      cases hstep
  | started =>
      simp only [hpc] at hstep hunread hneeds
      cases hstep
      exact h.next rfl hne hunread hneeds trivial
  | open1 =>
      simp only [hpc] at hstep hunread hneeds
      split_ifs at hstep <;> cases hstep
      · exact h.next rfl hne nofun hneeds trivial
      · refine h.next rfl hne ?_ ?_ trivial
        · intro bytes hbytes
          rw [← hunread bytes hbytes]
          exact Fifo.hold_content (q := .child1) (by simp)
        · simpa [Fifo.openBy, Child1.needs] using hneeds
  | readNum1 =>
      simp only [hpc] at hstep hunread hneeds
      split_ifs at hstep <;> cases hstep
      · exact h.next rfl hne (fun _ => nofun) (Nat.le_pred_of_lt hneeds) trivial
      · rw [hunread _ rfl, List.append_assoc, ofBytes_take]
        refine h.next rfl hne ?_ hneeds rfl
        rintro _ ⟨⟩
        rw [Fifo.skip_content, hunread _ rfl, List.append_assoc, drop_intBytes]
  | readNum2 x =>
      simp only [hpc] at hstep hunread hneeds hcorrect
      split_ifs at hstep <;> cases hstep
      · exact h.next rfl hne (fun _ => nofun) (Nat.le_pred_of_lt hneeds) trivial
      · rw [hunread _ rfl, ofBytes_take]
        refine h.next rfl hne ?_ hneeds ⟨hcorrect, rfl⟩
        rintro _ ⟨⟩
        rw [Fifo.skip_content, hunread _ rfl, drop_intBytes]
  | readCmd x y =>
      simp only [hpc] at hstep hunread hneeds hcorrect
      split_ifs at hstep <;> cases hstep
      · exact h.next rfl hne (fun _ => nofun) (Nat.le_pred_of_lt hneeds) trivial
      · rw [hunread _ rfl]
        exact h.next rfl hne nofun hneeds ⟨hcorrect.1, hcorrect.2, rfl⟩
  | compare x y text =>
      simp only [hpc] at hstep hneeds hcorrect
      obtain ⟨hx, hy, rfl⟩ := hcorrect
      rw [string_cmd] at hstep
      cases hstep
      exact h.next rfl hne nofun hneeds ⟨hx, hy, rfl⟩
  | read x y text =>
      simp only [hpc] at hstep hneeds hcorrect
      cases hstep
      exact h.next rfl hne nofun hneeds ⟨hcorrect.1, hcorrect.2.1⟩
  | open2 x y =>
      simp only [hpc] at hstep hneeds hcorrect
      obtain ⟨rfl, rfl⟩ := hcorrect
      split_ifs at hstep <;> cases hstep
      · exact h.next rfl hne (fun _ => nofun) (Nat.le_pred_of_lt hneeds) trivial
      · exact h.next rfl hne nofun hneeds rfl
  | write x =>
      simp only [hpc] at hstep hneeds hcorrect
      split_ifs at hstep <;> cases hstep
      · exact h.next rfl hne nofun (Nat.le_of_succ_le hneeds) trivial
      · exact h.next rfl hne nofun hneeds hcorrect
  | wrote x =>
      simp only [hpc] at hstep hneeds
      cases hstep
      exact h.next rfl hne nofun hneeds trivial
  | close1 =>
      simp only [hpc] at hstep hneeds
      cases hstep
      exact h.next rfl hne nofun (Nat.le_pred_of_lt hneeds) trivial
  | close2 =>
      simp only [hpc] at hstep hneeds
      cases hstep
      exact h.next rfl hne nofun hneeds trivial
  | exit status =>
      simp only [hpc] at hstep
      cases hstep
      exact h.next rfl hne nofun (Nat.zero_le _) trivial

theorem Fed.sent_eq_none (h : Fed num1 num2 s) (hne : s.child1 ≠ .none ∨ s.child2 ≠ .none) :
  s.parent.sent num1 num2 = none
  := by
  by_contra hsome
  obtain ⟨bytes, hbytes⟩ := Option.ne_none_iff_exists'.mp hsome
  obtain ⟨hchild1, hchild2, -⟩ := h.sent bytes hbytes
  exact hne.elim (· hchild1) (· hchild2)

theorem Fed.childProcess2 (h : Fed num1 num2 s) {fails : Bool}
    (hstep : s.childProcess2 fails = some t) :
  Fed num1 num2 t
  := by
  unfold State.childProcess2 at hstep
  have hparent : s.parent.sent num1 num2 = none := by
    apply h.sent_eq_none (.inr ?_)
    intro hpc
    simp only [hpc] at hstep
    cases hstep
  split at hstep
  all_goals try split_ifs at hstep
  all_goals try split at hstep
  all_goals try cases hstep
  all_goals first
    | exact h.keep rfl rfl rfl hparent
    | exact h.hold (p := .child2) (by decide) rfl rfl hparent

/-- What a step keeps, from what the processes keep. -/
theorem Fed.step (h : Fed num1 num2 s) (hstep : s.step num1 num2 a = some t) :
  Fed num1 num2 t
  := by
  cases a with
  | parent fails =>
      simp only [State.step] at hstep
      split_ifs at hstep
      exact h.main hstep
  | child1 fails => exact h.childProcess1 hstep
  | child2 fails => exact h.childProcess2 hstep
  | kill1 =>
      simp only [State.step] at hstep
      split_ifs at hstep with halive
      cases hstep
      refine h.next rfl ?_ nofun (Nat.zero_le _) trivial
      intro hpc
      rw [hpc] at halive
      cases halive
  | kill2 =>
      simp only [State.step] at hstep
      split_ifs at hstep with halive
      cases hstep
      refine h.hold (p := .child2) (by decide) rfl rfl (h.sent_eq_none (.inr ?_))
      intro hpc
      rw [hpc] at halive
      cases halive
  | signal signal =>
      simp only [State.step] at hstep
      split_ifs at hstep
      cases hstep
      unfold State.daemonSignalHandler
      split_ifs
      · exact h.keep rfl rfl rfl rfl
      · exact h.hold (p := .parent) (by decide) rfl rfl rfl
  | sigchld | deliver | handled | reap p =>
      simp only [State.step] at hstep
      split_ifs at hstep
      cases hstep
      exact ⟨h.sent, h.unread, h.needs, h.correct⟩

/-! ### What is written into `fifo2` and into the log -/

def Child1.Written : Child1 → Bool
  | wrote _ | close1 | close2 | exit _ | exited _ | killed => true
  | _ => false

/-- The line of the log is about the numbers of the parent. -/
def Entry.Correct (num1 num2 : BitVec 32) : Entry → Prop
  | parentWrote x y => x = num1 ∧ y = num2
  | child1Read x y text => x = some num1 ∧ y = some num2 ∧ text = cmd
  | child1Wrote x | child2Read x => x = larger num1 num2
  | invalidCommand => False
  | _ => True

structure Carries (num1 num2 : BitVec 32) (s : State) : Prop where
  content : s.fifo2.content = [] ∨ s.fifo2.content = intBytes (larger num1 num2)
  unwritten : s.child1.Written = false → s.fifo2.content = []
  child2 : ∀ x, s.child2 = .read x → x = larger num1 num2
  log : ∀ e ∈ s.log, e.Correct num1 num2

theorem Carries.initial (named1 named2 : Bool) :
  Carries num1 num2 (.initial named1 named2)
  := by
  refine ⟨.inl rfl, fun _ => rfl, nofun, ?_⟩
  intro e he
  cases List.mem_singleton.mp he
  trivial

/-- Nothing is written into `fifo2`. -/
theorem Carries.of (h : Carries num1 num2 s)
    (hcontent : t.fifo2.content = s.fifo2.content ∨ t.fifo2.content = [])
    (hchild1 : t.child1.Written = false → s.child1.Written = false)
    (hchild2 : ∀ x, t.child2 = .read x → s.child2 = .read x)
    (hlog : ∀ e ∈ t.log, e ∈ s.log ∨ e.Correct num1 num2) :
  Carries num1 num2 t
  := by
  refine ⟨?_, ?_, fun x hx => h.child2 x (hchild2 x hx), ?_⟩
  · rcases hcontent with heq | hnil
    · rw [heq]
      exact h.content
    · exact .inl hnil
  · intro hwritten
    rcases hcontent with heq | hnil
    · rw [heq]
      exact h.unwritten (hchild1 hwritten)
    · exact hnil
  · intro e he
    exact (hlog e he).elim (h.log e) id

theorem mem_note {e msg : Entry} (he : e ∈ (s.note msg).log) (hmsg : msg.Correct num1 num2) :
  e ∈ s.log ∨ e.Correct num1 num2
  := by
  rcases List.mem_append.mp he with he | he
  · exact .inl he
  · rw [List.mem_singleton.mp he]
    exact .inr hmsg

theorem mem_writeMsgToLog {e msg : Entry} (he : e ∈ (s.writeMsgToLog msg).log)
    (hmsg : msg.Correct num1 num2) :
  e ∈ s.log ∨ e.Correct num1 num2
  := by
  unfold State.writeMsgToLog at he
  dsimp only at he
  split_ifs at he
  · exact mem_note he hmsg
  · exact .inl he

theorem Carries.main (h : Carries num1 num2 s) (hfed : Fed num1 num2 s) {fails : Bool}
    (hstep : s.main num1 num2 fails = some t) :
  Carries num1 num2 t
  := by
  unfold State.main at hstep
  cases hpc : s.parent with
  | mkfifo1 | mkfifo2 | open1 | writeNum1 | writeNum2 | writeCmd =>
      simp only [hpc] at hstep
      split_ifs at hstep <;> cases hstep
      · exact h.of (.inl rfl) id (fun _ => id) fun _ he => mem_writeMsgToLog he trivial
      · refine h.of ?_ id (fun _ => id) fun _ he => .inl he
        first | exact .inl rfl | exact .inr rfl
  | opened | success =>
      simp only [hpc] at hstep
      cases hstep
      exact h.of (.inl rfl) id (fun _ => id) fun _ he => mem_writeMsgToLog he trivial
  | wrote =>
      simp only [hpc] at hstep
      cases hstep
      exact h.of (.inl rfl) id (fun _ => id) fun _ he => mem_writeMsgToLog he ⟨rfl, rfl⟩
  | fork1 =>
      obtain ⟨hchild1, -⟩ := hfed.sent _ (by rw [hpc]; rfl)
      simp only [hpc] at hstep
      split_ifs at hstep <;> cases hstep
      · exact h.of (.inl rfl) id (fun _ => id) fun _ he => mem_writeMsgToLog he trivial
      · exact h.of (.inl rfl) (fun _ => hchild1 ▸ rfl) (fun _ => id) fun _ he => .inl he
  | fork2 =>
      simp only [hpc] at hstep
      split_ifs at hstep <;> cases hstep
      · exact h.of (.inl rfl) id (fun _ => id) fun _ he => mem_writeMsgToLog he trivial
      · exact h.of (.inl rfl) id nofun fun _ he => .inl he
  | install signal | installChild =>
      simp only [hpc] at hstep
      split_ifs at hstep <;> cases hstep
      · exact h.of (.inl rfl) id (fun _ => id) fun _ he => mem_writeMsgToLog he trivial
      · exact h.of (.inl rfl) id (fun _ => id) fun _ he => .inl he
  | unlink1 _ | unlink2 _ | unlinkFirst =>
      simp only [hpc] at hstep
      split_ifs at hstep <;> cases hstep <;>
        exact h.of (.inl rfl) id (fun _ => id) fun _ he => .inl he
  | proceed =>
      simp only [hpc] at hstep
      split_ifs at hstep <;> cases hstep
      · refine h.of (.inl rfl) id (fun _ => id) fun e he => ?_
        rcases @mem_writeMsgToLog num1 num2 _ _ _ he trivial with he | he
        · exact mem_writeMsgToLog he trivial
        · exact .inr he
      · exact h.of (.inl rfl) id (fun _ => id) fun _ he => mem_writeMsgToLog he trivial
  | exit _ =>
      simp only [hpc] at hstep
      cases hstep
      exact h.of (Fifo.hold_content_eq _ _ _) id (fun _ => id) fun _ he => .inl he
  | test | close1 | closeLog _ =>
      simp only [hpc] at hstep
      cases hstep
      exact h.of (.inl rfl) id (fun _ => id) fun _ he => .inl he
  | exited _ | killed =>
      simp only [hpc] at hstep
      cases hstep

theorem Carries.childProcess1 (h : Carries num1 num2 s) (hfed : Fed num1 num2 s) {fails : Bool}
    (hstep : s.childProcess1 fails = some t) :
  Carries num1 num2 t
  := by
  have hcorrect := hfed.correct
  have hunwritten := h.unwritten
  unfold State.childProcess1 at hstep
  cases hpc : s.child1 with
  | none | exited _ | killed =>
      simp only [hpc] at hstep
      cases hstep
  | started =>
      simp only [hpc] at hstep
      cases hstep
      exact h.of (.inl rfl) (fun _ => hpc ▸ rfl) (fun _ => id) fun _ he => mem_note he trivial
  | open1 | readNum1 | readNum2 _ | readCmd _ _ =>
      simp only [hpc] at hstep
      split_ifs at hstep <;> cases hstep
      · exact h.of (.inl rfl) nofun (fun _ => id) fun _ he => mem_note he trivial
      · exact h.of (.inl rfl) (fun _ => hpc ▸ rfl) (fun _ => id) fun _ he => .inl he
  | compare x y text =>
      simp only [hpc] at hstep hcorrect
      obtain ⟨-, -, rfl⟩ := hcorrect
      rw [string_cmd] at hstep
      cases hstep
      exact h.of (.inl rfl) (fun _ => hpc ▸ rfl) (fun _ => id) fun _ he => .inl he
  | read x y text =>
      simp only [hpc] at hstep hcorrect
      cases hstep
      exact h.of (.inl rfl) (fun _ => hpc ▸ rfl) (fun _ => id) fun _ he => mem_note he hcorrect
  | open2 x y =>
      simp only [hpc] at hstep hcorrect
      obtain ⟨rfl, rfl⟩ := hcorrect
      split_ifs at hstep <;> cases hstep
      · exact h.of (.inl rfl) nofun (fun _ => id) fun _ he => mem_note he trivial
      · exact h.of (Fifo.hold_content_eq _ _ _) (fun _ => hpc ▸ rfl) (fun _ => id)
          fun _ he => .inl he
  | write x =>
      simp only [hpc] at hstep hcorrect hunwritten
      split_ifs at hstep <;> cases hstep
      · exact h.of (Fifo.hold_content_eq _ _ _) nofun (fun _ => id) fun _ he => mem_note he trivial
      · refine ⟨.inr ?_, nofun, h.child2, h.log⟩
        rw [Fifo.write_content, hunwritten rfl, hcorrect]
        rfl
  | wrote x =>
      simp only [hpc] at hstep hcorrect
      cases hstep
      exact h.of (.inl rfl) nofun (fun _ => id) fun _ he => mem_note he hcorrect
  | close1 =>
      simp only [hpc] at hstep
      cases hstep
      exact h.of (.inl rfl) nofun (fun _ => id) fun _ he => .inl he
  | close2 | exit status =>
      simp only [hpc] at hstep
      cases hstep
      exact h.of (Fifo.hold_content_eq _ _ _) nofun (fun _ => id) fun _ he => .inl he

theorem Carries.childProcess2 (h : Carries num1 num2 s) {fails : Bool}
    (hstep : s.childProcess2 fails = some t) :
  Carries num1 num2 t
  := by
  have hcontent := h.content
  unfold State.childProcess2 at hstep
  cases hpc : s.child2 with
  | none | exited _ | killed =>
      simp only [hpc] at hstep
      cases hstep
  | started | opened =>
      simp only [hpc] at hstep
      cases hstep
      exact h.of (.inl rfl) id nofun fun _ he => mem_note he trivial
  | open2 =>
      simp only [hpc] at hstep
      split_ifs at hstep <;> cases hstep
      · exact h.of (.inl rfl) id nofun fun _ he => mem_note he trivial
      · exact h.of (Fifo.hold_content_eq _ _ _) id nofun fun _ he => .inl he
  | readLarger =>
      simp only [hpc] at hstep
      split_ifs at hstep with hfails hempty
      · cases hstep
        exact h.of (Fifo.hold_content_eq _ _ _) id nofun fun _ he => mem_note he trivial
      · have hbytes : s.fifo2.content = intBytes (larger num1 num2) := by
          apply hcontent.resolve_left
          simpa using hempty
        rw [hbytes, List.take_of_length_le (by rfl), ofBytes_intBytes] at hstep
        cases hstep
        have hnil : (s.fifo2.skip 4).content = [] := by
          rw [Fifo.skip_content, hbytes]
          rfl
        refine ⟨.inl hnil, fun _ => hnil, ?_, h.log⟩
        rintro x ⟨⟩
        rfl
  | read x =>
      simp only [hpc] at hstep
      cases hstep
      exact h.of (.inl rfl) id nofun fun _ he => mem_note he (h.child2 x hpc)
  | close2 | exit status =>
      simp only [hpc] at hstep
      cases hstep
      exact h.of (Fifo.hold_content_eq _ _ _) id nofun fun _ he => .inl he

theorem Carries.step (h : Carries num1 num2 s) (hfed : Fed num1 num2 s)
    (hstep : s.step num1 num2 a = some t) :
  Carries num1 num2 t
  := by
  cases a with
  | parent fails =>
      simp only [State.step] at hstep
      split_ifs at hstep
      exact h.main hfed hstep
  | child1 fails => exact h.childProcess1 hfed hstep
  | child2 fails => exact h.childProcess2 hstep
  | kill1 =>
      simp only [State.step] at hstep
      split_ifs at hstep
      cases hstep
      exact h.of (Fifo.hold_content_eq _ _ _) nofun (fun _ => id) fun _ he => .inl he
  | kill2 =>
      simp only [State.step] at hstep
      split_ifs at hstep
      cases hstep
      exact h.of (Fifo.hold_content_eq _ _ _) id nofun fun _ he => .inl he
  | signal signal =>
      simp only [State.step] at hstep
      split_ifs at hstep
      cases hstep
      unfold State.daemonSignalHandler
      split_ifs
      · exact h.of (.inl rfl) id (fun _ => id) fun _ he => mem_writeMsgToLog he trivial
      · exact h.of (Fifo.hold_content_eq _ _ _) id (fun _ => id) fun _ he => .inl he
  | sigchld | deliver | handled =>
      simp only [State.step] at hstep
      split_ifs at hstep
      cases hstep
      exact h.of (.inl rfl) id (fun _ => id) fun _ he => .inl he
  | reap p =>
      simp only [State.step] at hstep
      split_ifs at hstep
      cases hstep
      exact h.of (.inl rfl) id (fun _ => id) fun _ he => mem_writeMsgToLog he trivial

theorem Reachable.numbers (h : Reachable num1 num2 s) :
  Fed num1 num2 s ∧ Carries num1 num2 s
  := by
  obtain ⟨named1, named2, hrun⟩ := h
  apply Transition.invariant ?_ hrun ⟨.initial named1 named2, .initial named1 named2⟩
  rintro s t ⟨hfed, hcarries⟩ ⟨a, hstep⟩
  exact ⟨hfed.step hstep, hcarries.step hfed hstep⟩

/-- The lines of the log are about the numbers that the parent has got. -/
theorem log_correct (h : Reachable num1 num2 s) :
  ∀ e ∈ s.log, e.Correct num1 num2
  := h.numbers.2.log

/-- The second child gets the larger number. -/
theorem log_correct_exchanged :
  ∃ s, Reachable 3 5 s
    ∧ s.log = [.created, .parentOpened, .parentWrote 3 5, .started .child1, .started .child2,
      .child2Opened, .child1Read (some 3) (some 5) cmd, .child1Wrote 5, .child2Read 5]
    ∧ ∀ e ∈ s.log, e.Correct 3 5
  := by
  let actions := started ++ [.child1 false, .child2 false, .child2 false, .child2 false]
    ++ List.replicate 9 (.child1 false) ++ [.child2 false, .child2 false]
  have hlog : ((State.initial false false).run 3 5 actions).map (·.log)
    = some [.created, .parentOpened, .parentWrote 3 5, .started .child1, .started .child2,
      .child2Opened, .child1Read (some 3) (some 5) cmd, .child1Wrote 5, .child2Read 5] := by
    decide
  obtain ⟨s, hs, hlog⟩ := Option.map_eq_some_iff.mp hlog
  have hreachable : Reachable 3 5 s := ⟨false, false, State.run_reaches hs⟩
  exact ⟨s, hreachable, hlog, log_correct hreachable⟩

end Daemon
