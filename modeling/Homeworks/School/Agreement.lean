import Homeworks.Registry.TwoSided
import Homeworks.School.System
import Mathlib.Data.List.Perm.Subperm

/-!
# Rosters and course lists

The system is a registry of students and courses.  The operations keep both sides in agreement
except for two slips: dropping a course looks the course up in the array from which it has just
been removed, and the loops that delete a record go on after they have freed it.
-/

namespace School

open Keyed

/-- Who takes what. -/
def System.registry (s : System) : Registry ℤ String :=
  ⟨s.students.map fun student => (student.ID, student.courses.map Course.code),
    s.courses.map fun course => (course.code, course.students.map StudentCopy.ID)⟩

/-- The selections that there are in a state, with keys that are new. -/
def Valid (s : System) : Op → Prop
  | .addStudent _ ID => ID ∉ s.students.map Student.ID
  | .addCourse _ code => code ∉ s.courses.map Course.code
  | .deleteStudent ID => ID ∈ s.students.map Student.ID
  | .deleteCourse code => code ∈ s.courses.map Course.code
  | .enrol ID choice => ∃ student ∈ s.students, student.ID = ID
      ∧ choice ≤ (s.availableCourses student).length
  | .drop ID choice => ∃ student ∈ s.students, student.ID = ID ∧ choice ≤ student.courses.length

/-- No course is dropped, and only one of the last two records is deleted. -/
def Plain (s : System) : Op → Prop
  | .deleteStudent ID => s.students.length ≤ s.students.findIdx (·.ID = ID) + 2
  | .deleteCourse code => s.courses.length ≤ s.courses.findIdx (·.code = code) + 2
  | .drop _ choice => choice = 0
  | _ => True

/-- As long as the selections are valid the operations return, and rosters and course lists
agree. -/
def KeepsAgreement (s : System) : List Op → Prop
  | [] => True
  | op :: ops => Valid s op →
      ∃ s', step s op = some s' ∧ s'.registry.Agrees ∧ KeepsAgreement s' ops

/-- As long as the selections are valid the operations are plain. -/
def AllPlain (s : System) : List Op → Prop
  | [] => True
  | op :: ops => Valid s op → Plain s op ∧ ∀ s', step s op = some s' → AllPlain s' ops

/-! ### The loops -/

section

variable {α β κ : Type} [DecidableEq κ] {key : α → κ} {mine : List α} {theirs : List β} {a : α}
  {i : ℕ} {unlink : α → List β → List β}

theorem updateFirst_eq {l : List α} (hl : (l.map key).Nodup) (k : κ) (f : α → α) :
  updateFirst (key · = k) f l = l.map fun a => if key a = k then f a else a
  := by
  induction l with
  | nil => rfl
  | cons a l ih =>
      obtain ⟨ha, hl⟩ := List.nodup_cons.mp hl
      rw [updateFirst, List.map_cons, ← ih hl]
      by_cases heq : key a = k
      · rw [if_pos (decide_eq_true heq), if_pos heq, ih hl]
        congr 1
        refine (List.map_id _).symm.trans (List.map_congr_left fun b hb => (if_neg ?_).symm)
        intro hbk
        exact ha (heq.trans hbk.symm ▸ List.mem_map_of_mem hb)
      · rw [if_neg heq, if_neg (by simpa using heq)]

/-- Behind the record that it deletes the loop reads a freed one. -/
theorem deleteLoop_eq (hmine : (mine.map key).Nodup) (h : mine[i]? = some a) :
  deleteLoop key (key a) unlink mine theirs 0 false
    = if mine.length ≤ i + 2 then some (mine.eraseIdx i, unlink a theirs) else none
  := by
  obtain ⟨hlt, rfl⟩ := List.getElem?_eq_some_iff.mp h
  suffices hloop : ∀ d j, j + d = i →
      deleteLoop key (key mine[i]) unlink mine theirs j false
        = if mine.length ≤ i + 2 then some (mine.eraseIdx i, unlink mine[i] theirs) else none from
    hloop i 0 (Nat.zero_add i)
  intro d
  induction d with
  | zero =>
      intro j hj
      obtain rfl : j = i := hj
      have hlength := List.length_eraseIdx_of_lt hlt
      rw [deleteLoop, dif_pos hlt, if_neg Bool.false_ne_true, if_pos rfl, deleteLoop]
      by_cases hlast : j + 1 < (mine.eraseIdx j).length
      · rw [dif_pos hlast, if_pos rfl, if_neg (by omega)]
      · rw [dif_neg hlast, if_pos (by omega)]
  | succ d ih =>
      intro j hj
      have hlt' : j < mine.length := by omega
      have hne : key mine[j] ≠ key mine[i] := by
        intro heq
        have hij : j = i := by
          rw [← List.getElem?_inj (by rwa [List.length_map]) hmine, List.getElem?_map,
            List.getElem?_map, List.getElem?_eq_getElem hlt', h, Option.map_some, heq,
            Option.map_some]
        omega
      rw [deleteLoop, dif_pos hlt', if_neg Bool.false_ne_true, if_neg hne,
        ih (j + 1) (by omega)]

theorem foldl_updateFirst {theirs : List α} (htheirs : (theirs.map key).Nodup) (f : α → α)
    (hf : ∀ b, key (f b) = key b) {ks : List κ} (hks : ks.Nodup) :
  ks.foldl (fun l k => updateFirst (key · = k) f l) theirs
    = theirs.map fun b => if key b ∈ ks then f b else b
  := by
  induction ks generalizing theirs with
  | nil => simp
  | cons k ks ih =>
      obtain ⟨hk, hks⟩ := List.nodup_cons.mp hks
      have hkey : (theirs.map fun b => if key b = k then f b else b).map key = theirs.map key := by
        rw [List.map_map]
        refine List.map_congr_left fun b _ => ?_
        rw [Function.comp_apply, apply_ite key, hf, ite_self]
      rw [List.foldl_cons, updateFirst_eq htheirs, ih (hkey ▸ htheirs) hks, List.map_map]
      refine List.map_congr_left fun b _ => ?_
      rw [Function.comp_apply]
      by_cases heq : key b = k
      · rw [if_pos heq, hf, heq, if_neg hk, if_pos List.mem_cons_self]
      · rw [if_neg heq]
        simp only [List.mem_cons, heq, false_or]

/-- A record is deleted if it is removed from the lists of those that it is linked with. -/
theorem delete_eq {ι : Type} [DecidableEq ι] {recordA : α → κ × List ι} {recordB : β → ι × List κ}
    (h : Registry.Sound ⟨mine.map recordA, theirs.map recordB⟩) (ha : mine[i]? = some a)
    {f : β → β}
    (hf : ∀ b ∈ theirs, recordB (f b) = ((recordB b).1, (recordB b).2.filter (· ≠ (recordA a).1))) :
  Registry.mk ((mine.eraseIdx i).map recordA)
      ((theirs.map fun b => if (recordB b).1 ∈ (recordA a).2 then f b else b).map recordB)
    = Registry.delete ⟨mine.map recordA, theirs.map recordB⟩ (recordA a).1
  := by
  have hkeys : (mine.map fun a => (recordA a).1).Nodup := by
    have hnodup := h.keys_left
    rwa [List.map_map] at hnodup
  rw [Registry.delete, eraseIdx_eq_filter hkeys ha, List.filter_map, List.map_map, List.map_map]
  congr 1
  refine List.map_congr_left fun b hb => ?_
  rw [Function.comp_apply, Function.comp_apply]
  split_ifs with hmem
  · exact hf b hb
  · have hnot : (recordA a).1 ∉ (recordB b).2 := fun hlinked =>
      hmem ((h.linked _ (List.mem_map_of_mem (List.mem_of_getElem? ha)) _
        (List.mem_map_of_mem hb)).mp hlinked)
    have hself : (recordB b).2.filter (· ≠ (recordA a).1) = (recordB b).2 :=
      List.filter_eq_self.mpr fun k hk => decide_eq_true fun heq => hnot (heq ▸ hk)
    rw [hself]

end

/-! ### The operations -/

variable {s : System} {student : Student} {course : Course} {i : ℕ}

theorem ids_nodup (h : s.registry.Sound) :
  (s.students.map Student.ID).Nodup
  := by
  have hkeys := h.keys_left
  rwa [System.registry, List.map_map] at hkeys

theorem codes_nodup (h : s.registry.Sound) :
  (s.courses.map Course.code).Nodup
  := by
  have hkeys := h.keys_right
  rwa [System.registry, List.map_map] at hkeys

/-- The list of a student. -/
theorem taken_nodup (h : s.registry.Sound) (hstudent : student ∈ s.students) :
  (student.courses.map Course.code).Nodup
  := h.nodup_left _ (List.mem_map_of_mem hstudent)

/-- The roster of a course. -/
theorem roster_nodup (h : s.registry.Sound) (hcourse : course ∈ s.courses) :
  (course.students.map StudentCopy.ID).Nodup
  := h.nodup_right _ (List.mem_map_of_mem hcourse)

theorem deleteStudent_eq (h : s.registry.Sound) (hstudent : s.students[i]? = some student) :
  s.deleteStudent student
      = (if s.students.length ≤ i + 2 then
          some ⟨System.unlinkStudent student s.courses, s.students.eraseIdx i⟩
        else none)
    ∧ (System.mk (System.unlinkStudent student s.courses) (s.students.eraseIdx i)).registry
      = s.registry.delete student.ID
  := by
  constructor
  · rw [System.deleteStudent, deleteLoop_eq (ids_nodup h) hstudent]
    split_ifs <;> rfl
  · have hmem := List.mem_of_getElem? hstudent
    have hunlink : System.unlinkStudent student s.courses
        = s.courses.map fun course =>
            if course.code ∈ student.courses.map Course.code then course.removeStudent student
            else course := by
      rw [System.unlinkStudent, ← foldl_updateFirst (codes_nodup h) (·.removeStudent student)
        (fun _ => rfl) (taken_nodup h hmem), List.foldl_map]
    rw [System.registry, hunlink]
    refine delete_eq h hstudent fun course hcourse => ?_
    rw [Course.removeStudent, map_eraseP (roster_nodup h hcourse)]

theorem deleteCourse_eq (h : s.registry.Sound) (hcourse : s.courses[i]? = some course) :
  s.deleteCourse course
      = (if s.courses.length ≤ i + 2 then
          some ⟨s.courses.eraseIdx i, System.unlinkCourse course s.students⟩
        else none)
    ∧ (System.mk (s.courses.eraseIdx i) (System.unlinkCourse course s.students)).registry
      = (s.registry.swap.delete course.code).swap
  := by
  constructor
  · rw [System.deleteCourse, deleteLoop_eq (codes_nodup h) hcourse]
    split_ifs <;> rfl
  · have hmem := List.mem_of_getElem? hcourse
    have hunlink : System.unlinkCourse course s.students
        = s.students.map fun student =>
            if student.ID ∈ course.students.map StudentCopy.ID then student.removeCourse course
            else student := by
      rw [System.unlinkCourse, ← foldl_updateFirst (ids_nodup h) (·.removeCourse course)
        (fun _ => rfl) (roster_nodup h hmem), List.foldl_map]
    rw [System.registry, hunlink]
    refine congrArg Registry.swap (delete_eq h.swap hcourse fun student hstudent => ?_)
    rw [Student.removeCourse, map_eraseP (taken_nodup h hstudent)]

theorem takes_iff :
  student.takes course = true ↔ course.code ∈ student.courses.map Course.code
  := by
  rw [Student.takes, List.any_eq_true, List.mem_map]
  simp only [decide_eq_true_eq]

/-- A course in the list is one that the student does not take. -/
theorem mem_availableCourses {k : ℕ} (h : k ∈ s.availableCourses student) :
  ∃ course, s.courses[k]? = some course ∧ course.code ∉ student.courses.map Course.code
  := by
  obtain ⟨⟨course, k⟩, hmem, rfl⟩ := List.mem_map.mp h
  obtain ⟨hzip, hnot⟩ := List.mem_filter.mp hmem
  refine ⟨course, List.mem_zipIdx_iff_getElem?.mp hzip, fun htaken => ?_⟩
  rw [takes_iff.mpr htaken] at hnot
  exact Bool.false_ne_true hnot

/-- The array that `list_courses` allocates is large enough. -/
theorem listCourses_eq (h : s.registry.Sound) (hstudent : student ∈ s.students) :
  s.listCourses student = some (s.availableCourses student)
  := by
  let available := s.courses.filter fun course => !student.takes course
  have hlength : (s.availableCourses student).length = available.length := by
    have hfilter : (s.courses.zipIdx.filter fun p => !student.takes p.1).map Prod.fst
        = available := by
      have hzip := congrArg (List.filter fun course => !student.takes course)
        (List.zipIdx_map_fst 0 s.courses)
      rwa [List.filter_map] at hzip
    rw [System.availableCourses, List.length_map, ← hfilter, List.length_map]
  have hdisjoint : (available.map Course.code ++ student.courses.map Course.code).Nodup := by
    apply List.Nodup.append ((List.filter_sublist.map _).nodup (codes_nodup h))
      (taken_nodup h hstudent)
    intro code hcode htaken
    obtain ⟨course, hcourse, rfl⟩ := List.mem_map.mp hcode
    have hnot := (List.mem_filter.mp hcourse).2
    rw [takes_iff.mpr htaken] at hnot
    exact Bool.false_ne_true hnot
  have hsubset : available.map Course.code ++ student.courses.map Course.code
      ⊆ s.courses.map Course.code := by
    refine List.append_subset.mpr ⟨List.map_subset _ (List.filter_subset_self _), ?_⟩
    have hknown := h.known_left _ (List.mem_map_of_mem hstudent)
    rwa [System.registry, List.map_map] at hknown
  have hle := (List.subperm_of_subset hdisjoint hsubset).length_le
  simp only [List.length_append, List.length_map] at hle
  rw [System.listCourses, if_pos (hlength ▸ hle)]

theorem enrol_sound (h : s.registry.Sound) (hstudent : s.students[i]? = some student) {choice : ℕ}
    (hchoice : choice ≤ (s.availableCourses student).length) :
  ∃ s', s.enrol i choice = some s' ∧ s'.registry.Sound
  := by
  have hmem := List.mem_of_getElem? hstudent
  rw [System.enrol, hstudent, Option.bind_eq_bind, Option.bind_some, listCourses_eq h hmem,
    Option.bind_eq_bind, Option.bind_some]
  split_ifs with hzero
  · exact ⟨s, rfl, h⟩
  · have hlt : choice - 1 < (s.availableCourses student).length := by omega
    obtain ⟨course, hcourse, hnot⟩ := mem_availableCourses (List.getElem_mem hlt)
    rw [List.getElem?_eq_getElem hlt, Option.bind_eq_bind, Option.bind_some, hcourse]
    refine ⟨_, rfl, ?_⟩
    have hlink : (System.mk (s.courses.set ((s.availableCourses student)[choice - 1])
          (course.addStudent student)) (s.students.set i (student.addCourse course))).registry
        = s.registry.link student.ID course.code := by
      rw [System.registry, set_eq_map (codes_nodup h) hcourse (·.addStudent student),
        set_eq_map (ids_nodup h) hstudent (·.addCourse course), Registry.link, System.registry]
      simp only [List.map_map]
      congr 1
      · refine List.map_congr_left fun other _ => ?_
        simp only [Function.comp_apply]
        split_ifs
        · simp [Student.addCourse]
        · rfl
      · refine List.map_congr_left fun other _ => ?_
        simp only [Function.comp_apply]
        split_ifs
        · simp [Course.addStudent]
        · rfl
    rw [hlink]
    apply h.link
    · exact List.mem_map_of_mem (List.mem_map_of_mem hmem)
    · exact List.mem_map_of_mem (List.mem_map_of_mem (List.mem_of_getElem? hcourse))
    · intro x hx heq
      obtain ⟨other, hother, rfl⟩ := List.mem_map.mp hx
      rwa [List.inj_on_of_nodup_map (ids_nodup h) hother hmem heq]

/-- A course that is dropped is taken out of the list of the student only, if there is another
behind it. -/
theorem not_agrees_drop (h : s.registry.Sound) (hstudent : s.students[i]? = some student)
    {choice : ℕ} (hzero : choice ≠ 0) {s' : System} (hdrop : s.drop i choice = some s') :
  ¬ s'.registry.Agrees
  := by
  have hmem := List.mem_of_getElem? hstudent
  obtain ⟨hlt, -⟩ := List.getElem?_eq_some_iff.mp hstudent
  rw [System.drop, hstudent, Option.bind_eq_bind, Option.bind_some, if_neg hzero] at hdrop
  cases hcourse : student.courses[choice - 1]? with
  | none =>
      rw [hcourse] at hdrop
      cases hdrop
  | some course =>
      rw [hcourse, Option.bind_eq_bind, Option.bind_some] at hdrop
      dsimp only [Option.bind_eq_bind] at hdrop
      cases hnext : (student.removeCourse course).courses[choice - 1]? with
      | none =>
          rw [hnext] at hdrop
          cases hdrop
      | some other =>
          rw [hnext] at hdrop
          cases hdrop
          intro hagrees
          have hcode : course.code ∈ student.courses.map Course.code :=
            List.mem_map_of_mem (List.mem_of_getElem? hcourse)
          -- the record of the system still has the student
          have hknown := h.known_left _ (List.mem_map_of_mem hmem) hcode
          obtain ⟨y, hy, heq⟩ := List.mem_map.mp hknown
          have hroster := (h.linked _ (List.mem_map_of_mem hmem) y hy).mpr (heq ▸ hcode)
          have hcodes : (((student.removeCourse course).courses.set (choice - 1)
                (other.removeStudent (student.removeCourse course))).map Course.code)
              = (student.courses.map Course.code).filter (· ≠ course.code) := by
            obtain ⟨hlt', rfl⟩ := List.getElem?_eq_some_iff.mp hnext
            have hcodesLt : choice - 1
                < ((student.removeCourse course).courses.map Course.code).length := by
              rwa [List.length_map]
            have hself := List.set_getElem_self hcodesLt
            rw [List.getElem_map] at hself
            rw [← map_eraseP (taken_nodup h hmem), List.map_set]
            exact hself
          have hlist := (hagrees.linked _ (List.mem_map_of_mem (List.mem_set hlt _)) y hy).mp
            hroster
          dsimp only at hlist
          rw [hcodes, heq] at hlist
          exact of_decide_eq_true (List.mem_filter.mp hlist).2 rfl

/-! ### Sequences of operations -/

/-- A plain operation keeps the system sound, and no other leaves it in agreement. -/
theorem step_sound (h : s.registry.Sound) {op : Op} (hvalid : Valid s op) :
  (Plain s op → ∃ s', step s op = some s' ∧ s'.registry.Sound)
    ∧ (¬ Plain s op → ∀ s', step s op = some s' → ¬ s'.registry.Agrees)
  := by
  cases op with
  | addStudent name ID =>
      refine ⟨fun _ => ⟨_, rfl, ?_⟩, fun hplain => absurd trivial hplain⟩
      have hadd : (s.addStudent name ID).registry = s.registry.add ID := by
        simp [System.registry, System.addStudent, Registry.add]
      rw [hadd]
      apply h.add
      rwa [System.registry, List.map_map]
  | addCourse name code =>
      refine ⟨fun _ => ⟨_, rfl, ?_⟩, fun hplain => absurd trivial hplain⟩
      have hadd : (s.addCourse name code).registry = (s.registry.swap.add code).swap := by
        simp [System.registry, System.addCourse, Registry.add, Registry.swap]
      rw [hadd]
      apply (h.swap.add _).swap
      rwa [Registry.swap, System.registry, List.map_map]
  | deleteStudent ID =>
      obtain ⟨student, hstudent, rfl, hselect⟩ := findIdx_eq hvalid
      obtain ⟨hdelete, hregistry⟩ := deleteStudent_eq h hstudent
      have hstep : step s (.deleteStudent student.ID) = s.deleteStudent student := by
        rw [step, System.selectStudent, hselect, Option.bind_eq_bind, Option.bind_some, hstudent]
        rfl
      rw [hstep, hdelete]
      constructor
      · intro hplain
        rw [Plain] at hplain
        rw [if_pos hplain]
        exact ⟨_, rfl, hregistry ▸ h.delete student.ID⟩
      · intro hplain s' hs'
        rw [Plain] at hplain
        rw [if_neg hplain] at hs'
        cases hs'
  | deleteCourse code =>
      obtain ⟨course, hcourse, rfl, hselect⟩ := findIdx_eq hvalid
      obtain ⟨hdelete, hregistry⟩ := deleteCourse_eq h hcourse
      have hstep : step s (.deleteCourse course.code) = s.deleteCourse course := by
        rw [step, System.selectCourse, hselect, Option.bind_eq_bind, Option.bind_some, hcourse]
        rfl
      rw [hstep, hdelete]
      constructor
      · intro hplain
        rw [Plain] at hplain
        rw [if_pos hplain]
        exact ⟨_, rfl, hregistry ▸ (h.swap.delete course.code).swap⟩
      · intro hplain s' hs'
        rw [Plain] at hplain
        rw [if_neg hplain] at hs'
        cases hs'
  | enrol ID choice =>
      obtain ⟨other, hother, rfl, hchoice⟩ := hvalid
      obtain ⟨student, hstudent, hID, hselect⟩ :=
        findIdx_eq (List.mem_map_of_mem (f := Student.ID) hother)
      obtain rfl : student = other :=
        List.inj_on_of_nodup_map (ids_nodup h) (List.mem_of_getElem? hstudent) hother hID
      refine ⟨fun _ => ?_, fun hplain => absurd trivial hplain⟩
      rw [step, System.selectStudent, hselect]
      exact enrol_sound h hstudent hchoice
  | drop ID choice =>
      obtain ⟨other, hother, rfl, hchoice⟩ := hvalid
      obtain ⟨student, hstudent, hID, hselect⟩ :=
        findIdx_eq (List.mem_map_of_mem (f := Student.ID) hother)
      rw [step, System.selectStudent, hselect]
      constructor
      · rintro rfl
        refine ⟨s, ?_, h⟩
        rw [Option.bind_eq_bind, Option.bind_some, System.drop, hstudent]
        rfl
      · exact fun hplain s' hs' => not_agrees_drop h hstudent hplain hs'

theorem keepsAgreement_iff (h : s.registry.Sound) (ops : List Op) :
  KeepsAgreement s ops ↔ AllPlain s ops
  := by
  induction ops generalizing s with
  | nil => exact Iff.rfl
  | cons op ops ih =>
      refine forall_congr' fun hvalid => ?_
      obtain ⟨hplain, hnot⟩ := step_sound h hvalid
      constructor
      · rintro ⟨s', hstep, hagrees, hrest⟩
        have hop : Plain s op := by
          by_contra hop
          exact hnot hop s' hstep hagrees
        refine ⟨hop, fun s'' hstep' => ?_⟩
        obtain ⟨s₁, hs₁, hsound⟩ := hplain hop
        rw [hstep] at hs₁ hstep'
        cases hs₁
        cases hstep'
        exact (ih hsound).mp hrest
      · rintro ⟨hop, hrest⟩
        obtain ⟨s', hstep, hsound⟩ := hplain hop
        exact ⟨s', hstep, hsound.toAgrees, (ih hsound).mpr (hrest s' hstep)⟩

/-- From the empty system all operations return and keep rosters and course lists in agreement if
and only if they are plain. -/
theorem rosters_agree_iff (ops : List Op) :
  KeepsAgreement ⟨[], []⟩ ops ↔ AllPlain ⟨[], []⟩ ops
  := keepsAgreement_iff Registry.sound_empty ops

/-- The only course of a student is dropped. -/
theorem drop_last :
  ¬ KeepsAgreement ⟨[], []⟩
    [.addStudent "Ada" 1, .addCourse "Logic" "C1", .enrol 1 1, .drop 1 1]
  := by
  intro h
  obtain ⟨_, ⟨⟩, -, h⟩ := h List.not_mem_nil
  obtain ⟨_, ⟨⟩, -, h⟩ := h List.not_mem_nil
  obtain ⟨_, ⟨⟩, -, h⟩ := h ⟨_, List.mem_singleton_self _, rfl, by decide⟩
  obtain ⟨_, hstep, -, h⟩ := h ⟨_, List.mem_singleton_self _, rfl, by decide⟩
  cases hstep

end School
