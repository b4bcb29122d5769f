import Mathlib.Data.Int.Notation
import Mathlib.Data.List.Basic

/-!
# The school management system

The system has arrays of students and courses.  A student has copies of the courses that it takes,
and a course has copies of its students; a copy has no students of its own.  A growing array is a
list, and behind its last element is a null pointer wherever the program looks there.
-/

namespace School

/-- A student in the array of a course. -/
structure StudentCopy where
  name : String
  ID : ℤ
  deriving DecidableEq, Repr

/-- A course of the system, or in the array of a student. -/
structure Course where
  name : String
  code : String
  students : List StudentCopy
  deriving DecidableEq, Repr

structure Student where
  name : String
  ID : ℤ
  courses : List Course
  deriving DecidableEq, Repr

def Student.addCourse (student : Student) (course : Course) : Student :=
  { student with courses := student.courses ++ [⟨course.name, course.code, []⟩] }

def Student.removeCourse (student : Student) (course : Course) : Student :=
  { student with courses := student.courses.eraseP (·.code = course.code) }

/-- The flag of `list_courses`. -/
def Student.takes (student : Student) (course : Course) : Bool :=
  student.courses.any (·.code = course.code)

def Course.addStudent (course : Course) (student : Student) : Course :=
  { course with students := course.students ++ [⟨student.name, student.ID⟩] }

def Course.removeStudent (course : Course) (student : Student) : Course :=
  { course with students := course.students.eraseP (·.ID = student.ID) }

structure System where
  courses : List Course
  students : List Student
  deriving DecidableEq, Repr

/-! ### Loops -/

/-- A loop that does something to the first element of a kind and breaks. -/
def updateFirst {α : Type} (p : α → Bool) (f : α → α) : List α → List α
  | [] => []
  | a :: l => if p a then f a :: l else a :: updateFirst p f l

/-- The loop of `delete_student` and `delete_course`, from an index on: a record with the given key
is unlinked from those on the other side, freed, and taken out of its array.  The key is read from
the record itself in every round, nothing if it has been freed. -/
def deleteLoop {α β κ : Type} [DecidableEq κ] (key : α → κ) (k : κ) (unlink : α → List β → List β)
    (mine : List α) (theirs : List β) (i : ℕ) (freed : Bool) : Option (List α × List β) :=
  if h : i < mine.length then
    if freed then none
    else if key mine[i] = k then
      deleteLoop key k unlink (mine.eraseIdx i) (unlink mine[i] theirs) (i + 1) true
    else deleteLoop key k unlink mine theirs (i + 1) freed
  else some (mine, theirs)
termination_by mine.length - i
decreasing_by
  · rw [List.length_eraseIdx_of_lt h]
    omega
  · omega

/-! ### Operations -/

namespace System

def addStudent (s : System) (name : String) (ID : ℤ) : System :=
  { s with students := s.students ++ [⟨name, ID, []⟩] }

def addCourse (s : System) (name code : String) : System :=
  { s with courses := s.courses ++ [⟨name, code, []⟩] }

/-- `select_student`, where the pointer is an index. -/
def selectStudent (s : System) (ID : ℤ) : Option ℕ := s.students.findIdx? (·.ID = ID)

def selectCourse (s : System) (code : String) : Option ℕ := s.courses.findIdx? (·.code = code)

/-- The student is removed from the courses that it takes. -/
def unlinkStudent (student : Student) (courses : List Course) : List Course :=
  student.courses.foldl
    (fun courses taken => updateFirst (·.code = taken.code) (·.removeStudent student) courses)
    courses

/-- The course is removed from the students that take it. -/
def unlinkCourse (course : Course) (students : List Student) : List Student :=
  course.students.foldl
    (fun students enrolled => updateFirst (·.ID = enrolled.ID) (·.removeCourse course) students)
    students

def deleteStudent (s : System) (student : Student) : Option System := do
  let (students, courses) ←
    deleteLoop Student.ID student.ID unlinkStudent s.students s.courses 0 false
  some ⟨courses, students⟩

def deleteCourse (s : System) (course : Course) : Option System := do
  let (courses, students) ←
    deleteLoop Course.code course.code unlinkCourse s.courses s.students 0 false
  some ⟨courses, students⟩

/-- The pointers that `list_courses` collects, as indices. -/
def availableCourses (s : System) (student : Student) : List ℕ :=
  (s.courses.zipIdx.filter fun p => !student.takes p.1).map Prod.snd

/-- `list_courses`, nothing if the array that it allocates is too small. -/
def listCourses (s : System) (student : Student) : Option (List ℕ) :=
  let available := s.availableCourses student
  if available.length + student.courses.length ≤ s.courses.length then some available else none

/-- Case 3 of the menu of a student. -/
def enrol (s : System) (i choice : ℕ) : Option System := do
  let student ← s.students[i]?
  let selected ← s.listCourses student
  if choice = 0 then some s
  else
    let k ← selected[choice - 1]?
    let course ← s.courses[k]?
    some ⟨s.courses.set k (course.addStudent student), s.students.set i (student.addCourse course)⟩

/-- Case 4 of the menu of a student: the array that has been listed is the one of the student, from
which the course is removed before it is looked up again. -/
def drop (s : System) (i choice : ℕ) : Option System := do
  let student ← s.students[i]?
  if choice = 0 then some s
  else
    let course ← student.courses[choice - 1]?
    let student := student.removeCourse course
    let course ← student.courses[choice - 1]?
    let courses := student.courses.set (choice - 1) (course.removeStudent student)
    some { s with students := s.students.set i { student with courses := courses } }

end System

/-- The operations of the menus, with what is typed in. -/
inductive Op where
  | addStudent (name : String) (ID : ℤ)
  | addCourse (name code : String)
  | deleteStudent (ID : ℤ)
  | deleteCourse (code : String)
  | enrol (ID : ℤ) (choice : ℕ)
  | drop (ID : ℤ) (choice : ℕ)
  deriving DecidableEq, Repr

/-- The system after an operation, nothing if it follows a null pointer, one past the end of an
array or one to a freed object, or selects what is not there. -/
def step (s : System) : Op → Option System
  | .addStudent name ID => some (s.addStudent name ID)
  | .addCourse name code => some (s.addCourse name code)
  | .deleteStudent ID => do
      let i ← s.selectStudent ID
      let student ← s.students[i]?
      s.deleteStudent student
  | .deleteCourse code => do
      let i ← s.selectCourse code
      let course ← s.courses[i]?
      s.deleteCourse course
  | .enrol ID choice => do
      let i ← s.selectStudent ID
      s.enrol i choice
  | .drop ID choice => do
      let i ← s.selectStudent ID
      s.drop i choice

end School
