import SmallRpc.Buffer

/-! The appender behind the log. It closes and opens its file in three places, and what
`fopen` returns decides whether there is a file to write to afterwards. -/
namespace SmallRpc

/-- `stat` of the log file: its inode, or an error, of which `ENOENT` is told apart. -/
inductive StatResult where
  | present (inode : Nat)
  | missing
  | failed
  deriving DecidableEq, Repr

/-- `fopen`, and the inode that the `stat` after it finds, if it finds one. -/
inductive OpenResult where
  | failed
  | opened (inode : Option Nat)
  deriving DecidableEq, Repr

/-- Files are numbered as they are opened; `openFiles` are those that are not closed yet.
`written` is what `fwrite` has taken, with the file it went to. -/
structure LogFileAppender where
  f : Option Nat := none
  fileNode : Nat := 0
  rolloverS : Int := -1
  t : Int
  fileStat : Nat
  opened : Nat := 0
  openFiles : List Nat := []
  written : List (Nat × Bytes) := []
  deriving DecidableEq, Repr

/-- A record, and what the calls that `append` makes come to. `fwrite` takes up to `taken`
bytes of it; `reopen` is for `do_rollover`, and `again` for a short `fwrite`. -/
structure Append where
  record : Bytes
  now : Int
  stat : StatResult
  reopen : OpenResult
  taken : Nat
  again : OpenResult
  deriving DecidableEq, Repr

namespace LogFileAppender

/-- `open`. A `stat` that fails leaves `_file_stat` as it was. -/
def openFile (a : LogFileAppender) : OpenResult → Bool × LogFileAppender
  | .failed => (false, { a with f := none })
  | .opened inode =>
    let fileStat := inode.getD a.fileStat
    (true, { a with f := some a.opened, fileStat, fileNode := fileStat, opened := a.opened + 1,
                    openFiles := a.opened :: a.openFiles })

def close (a : LogFileAppender) : LogFileAppender :=
  match a.f with
  | none => a
  | some file => { a with f := none, openFiles := a.openFiles.filter (· ≠ file) }

/-- The seconds are an `int`: from 35791395 minutes on, the product wraps. -/
def init (a : LogFileAppender) (rolloverMin : Int) (result : OpenResult) : Bool × LogFileAppender :=
  { a with rolloverS := (rolloverMin * 60).bmod (2 ^ 32) }.openFile result

/-- Closed and opened again, at this time. -/
def reopen (a : LogFileAppender) (result : OpenResult) (now : Int) : LogFileAppender :=
  { (a.close.openFile result).2 with t := now }

/-- Between `close` and `open`, a rollover renames the file; nobody looks at the outcome. -/
def doRollover (a : LogFileAppender) (e : Append) : LogFileAppender :=
  if 0 < a.rolloverS ∧ a.rolloverS ≤ e.now - a.t then a.reopen e.reopen e.now
  else match e.stat with
    | .failed => a
    | .missing => a.reopen e.reopen e.now
    | .present inode =>
      if a.fileNode ≠ inode then { a with fileStat := inode }.reopen e.reopen e.now
      else { a with fileStat := inode }

/-- A negative `len` is a huge `size_t`. -/
def append (a : LogFileAppender) (e : Append) : Except Fault LogFileAppender :=
  let a := a.doRollover e
  let len := castInt e.record.length
  match a.f with
  | none => .error .nullPointer
  | some file =>
    if file ∉ a.openFiles then .error .danglingPointer
    else if len < 0 then .error .outOfStorage
    else
      let ret := min e.taken len.toNat
      let a := { a with written := a.written ++ [(file, e.record.take ret)] }
      .ok (if (ret : Int) < len then (a.close.openFile e.again).2 else a)

/-- Every file opens, and `fwrite` takes all of a record of ordinary length. -/
structure Cooperative (e : Append) : Prop where
  reopen : e.reopen ≠ .failed
  taken : e.record.length ≤ e.taken
  small : e.record.length < 2 ^ 31

/-- The whole record is in one file. -/
def Wrote (a : LogFileAppender) (e : Append) (a' : LogFileAppender) : Prop :=
  ∃ file, a'.written = a.written ++ [(file, e.record)]

/-- Once `fopen` succeeds again, records are written. -/
def Able (a : LogFileAppender) : Prop :=
  ∀ e, Cooperative e → ∃ a', a.append e = .ok a' ∧ a.Wrote e a'

/-- Every `fwrite` is given an open file, and writes the record or leaves the appender able. -/
def Keeps : LogFileAppender → List Append → Prop
  | _, [] => True
  | a, e :: es => ∃ a', a.append e = .ok a' ∧ (a.Wrote e a' ∨ a'.Able) ∧ a'.Keeps es

/-- `do_rollover` gets to `fopen`. -/
def Reopens (a : LogFileAppender) (e : Append) : Prop :=
  (0 < a.rolloverS ∧ a.rolloverS ≤ e.now - a.t) ∨ e.stat = .missing ∨
    ∃ inode, e.stat = .present inode ∧ a.fileNode ≠ inode

/-- Every `fopen` that is called succeeds, and the length of the record is an `int`. -/
structure Opens (a : LogFileAppender) (e : Append) : Prop where
  reopen : a.Reopens e → e.reopen ≠ .failed
  again : (e.taken : Int) < castInt e.record.length → e.again ≠ .failed
  length : 0 ≤ castInt e.record.length

/-- So they do all along. -/
def AllOpen : LogFileAppender → List Append → Prop
  | _, [] => True
  | a, e :: es => a.Opens e ∧ ∀ a', a.append e = .ok a' → a'.AllOpen es

variable {a a' : LogFileAppender} {e : Append} {es : List Append} {result : OpenResult} {now : Int}

/-- There is a file, and it is open. -/
def Live (a : LogFileAppender) : Prop := ∃ file ∈ a.openFiles, a.f = some file

theorem openFile_live (h : result ≠ .failed) : (a.openFile result).2.Live := by
  cases result with
  | failed => exact absurd rfl h
  | opened inode => exact ⟨a.opened, List.mem_cons_self, rfl⟩

theorem openFile_written : (a.openFile result).2.written = a.written := by
  cases result <;> rfl

theorem close_written : a.close.written = a.written := by
  unfold close
  cases a.f <;> rfl

theorem doRollover_written : (a.doRollover e).written = a.written := by
  have reopened : ∀ b : LogFileAppender, (b.reopen e.reopen e.now).written = b.written := fun b =>
    openFile_written.trans close_written
  unfold doRollover
  split_ifs
  · exact reopened a
  · split
    · rfl
    · exact reopened a
    · split_ifs
      · exact reopened _
      · rfl

/-- `do_rollover` leaves the file as it is, or opens it again. -/
theorem doRollover_reopens (h : a.Reopens e) :
    ∃ b : LogFileAppender, a.doRollover e = b.reopen e.reopen e.now := by
  unfold doRollover
  split_ifs with due
  · exact ⟨a, rfl⟩
  · rcases h with h | missing | ⟨inode, present, other⟩
    · exact absurd h due
    · exact ⟨a, by rw [missing]⟩
    · refine ⟨{ a with fileStat := inode }, ?_⟩
      rw [present]
      exact if_pos other

theorem doRollover_stays (h : ¬ a.Reopens e) :
    (a.doRollover e).f = a.f ∧ (a.doRollover e).openFiles = a.openFiles := by
  unfold doRollover
  rw [if_neg fun due => h (.inl due)]
  cases stat : e.stat with
  | failed => exact ⟨rfl, rfl⟩
  | missing => exact absurd (.inr (.inl stat)) h
  | present inode =>
      have same : ¬ a.fileNode ≠ inode := fun other => h (.inr (.inr ⟨inode, stat, other⟩))
      simp only [if_neg same, and_self]

theorem doRollover_live (live : a.Live) (opens : a.Reopens e → e.reopen ≠ .failed) :
    (a.doRollover e).Live := by
  by_cases reopens : a.Reopens e
  · obtain ⟨b, same⟩ := doRollover_reopens reopens
    rw [same]
    exact openFile_live (opens reopens)
  · obtain ⟨f, openFiles⟩ := doRollover_stays reopens
    unfold Live
    rw [f, openFiles]
    exact live

theorem doRollover_dead (reopens : a.Reopens e) (failed : e.reopen = .failed) :
    (a.doRollover e).f = none := by
  obtain ⟨b, same⟩ := doRollover_reopens reopens
  rw [same, failed]
  rfl

/-- What `fwrite` is asked for, and whether it takes all of it. -/
theorem append_eq {file : Nat} (f : (a.doRollover e).f = some file)
    (mem : file ∈ (a.doRollover e).openFiles) (length : 0 ≤ castInt e.record.length) :
    ∃ b : LogFileAppender, b.f = some file ∧ file ∈ b.openFiles ∧
      b.written = a.written ++ [(file, e.record.take (min e.taken (castInt e.record.length).toNat))] ∧
        a.append e = .ok (if (e.taken : Int) < castInt e.record.length then
          (b.close.openFile e.again).2 else b) := by
  refine ⟨{ a.doRollover e with written := (a.doRollover e).written ++
    [(file, e.record.take (min e.taken (castInt e.record.length).toNat))] }, f, mem, ?_, ?_⟩
  · exact congrArg (· ++ _) doRollover_written
  · have short : ((min e.taken (castInt e.record.length).toNat : Nat) : Int) < castInt e.record.length ↔
        (e.taken : Int) < castInt e.record.length := by omega
    unfold append
    simp only [f, mem, not_true_eq_false, if_false, not_lt.mpr length, short]

/-- With an open file after `do_rollover` there is one afterwards, unless `fwrite` stops
short and the file cannot be opened again. -/
theorem append_live (live : (a.doRollover e).Live) (length : 0 ≤ castInt e.record.length) :
    ∃ a', a.append e = .ok a' ∧ (((e.taken : Int) < castInt e.record.length → e.again ≠ .failed) →
      a'.Live) := by
  obtain ⟨file, mem, f⟩ := live
  obtain ⟨b, bf, bmem, _, out⟩ := append_eq f mem length
  refine ⟨_, out, fun again => ?_⟩
  split_ifs with short
  · exact openFile_live (again short)
  · exact ⟨file, bmem, bf⟩

theorem Live.able (live : a.Live) : a.Able := by
  intro e cooperative
  have length : castInt e.record.length = e.record.length := castInt_of_lt cooperative.small
  obtain ⟨file, mem, f⟩ := doRollover_live live fun _ => cooperative.reopen
  obtain ⟨b, _, _, written, out⟩ := append_eq f mem (by rw [length]; exact Int.natCast_nonneg _)
  have whole : ¬ (e.taken : Int) < castInt e.record.length := by
    have taken := cooperative.taken
    omega
  rw [if_neg whole] at out
  refine ⟨b, out, file, ?_⟩
  rw [written, length, Int.toNat_natCast, Nat.min_eq_right cooperative.taken, List.take_length]

/-- Without a file, a record is not written as long as the old file is there. -/
theorem not_able (h : a.f = none) : ¬ a.Able := by
  intro able
  obtain ⟨a', out, _⟩ := able ⟨[], a.t, .present a.fileNode, .opened none, 0, .opened none⟩
    ⟨by simp, le_rfl, (by decide : 0 < 2 ^ 31)⟩
  have early : ¬ (0 < a.rolloverS ∧ a.rolloverS ≤ a.t - a.t) := by omega
  unfold append doRollover at out
  simp only [if_neg early, ne_eq, not_true_eq_false, if_false, h] at out
  cases out

/-- The step: with an open file, an append goes well exactly if what it opens opens. -/
theorem append_keeps_iff (live : a.Live) :
    (∃ a', a.append e = .ok a' ∧ (a.Wrote e a' ∨ a'.Able)) ↔ a.Opens e := by
  constructor
  · rintro ⟨a', out, kept⟩
    have reopen : a.Reopens e → e.reopen ≠ .failed := by
      intro reopens failed
      have dead := doRollover_dead reopens failed
      unfold append at out
      simp only [dead] at out
      cases out
    obtain ⟨file, mem, f⟩ := doRollover_live live reopen
    have length : 0 ≤ castInt e.record.length := by
      by_contra negative
      unfold append at out
      simp only [f, mem, not_true_eq_false, if_false, not_le.mp negative, if_true] at out
      cases out
    refine ⟨reopen, fun short failed => ?_, length⟩
    obtain ⟨b, _, _, written, out'⟩ := append_eq f mem length
    rw [out', if_pos short, failed] at out
    cases out
    rcases kept with ⟨file', wrote⟩ | able
    · have same := (written.symm.trans (close_written.symm.trans (openFile_written.symm.trans wrote)))
      have one := (Prod.mk.inj (List.singleton_inj.mp (List.append_cancel_left same))).2
      have lengths := congrArg List.length one
      have cast := castInt_le e.record.length
      rw [List.length_take] at lengths
      omega
    · exact not_able rfl able
  · intro opens
    obtain ⟨a', out, later⟩ := append_live (doRollover_live live opens.reopen) opens.length
    exact ⟨a', out, .inr (later opens.again).able⟩

/-- With an open file, a run goes well exactly if every file opens. -/
theorem keeps_iff (live : a.Live) : a.Keeps es ↔ a.AllOpen es := by
  induction es generalizing a with
  | nil => exact Iff.rfl
  | cons e es ih =>
      constructor
      · rintro ⟨a', out, kept, rest⟩
        have opens := (append_keeps_iff live).mp ⟨a', out, kept⟩
        refine ⟨opens, fun a'' out' => ?_⟩
        obtain ⟨b, out'', later⟩ := append_live (doRollover_live live opens.reopen) opens.length
        rw [out] at out' out''
        cases out'
        cases out''
        exact (ih (later opens.again)).mp rest
      · rintro ⟨opens, rest⟩
        obtain ⟨a', out, later⟩ := append_live (doRollover_live live opens.reopen) opens.length
        have live' := later opens.again
        exact ⟨a', out, .inr live'.able, (ih live').mpr (rest a' out)⟩

/-- A new appender; what its `struct stat` holds is not known. -/
def made (t : Int) (fileStat : Nat) : LogFileAppender := { t, fileStat }

/-- After a successful `init`, the appender keeps to its file in every run in which every
`fopen` that is called succeeds, and in no other. -/
theorem file_kept_iff (t : Int) (fileStat : Nat) (rolloverMin : Int) (inode : Option Nat)
    (es : List Append) : Keeps ((made t fileStat).init rolloverMin (.opened inode)).2 es ↔
      AllOpen ((made t fileStat).init rolloverMin (.opened inode)).2 es :=
  keeps_iff (openFile_live (by simp))

/-- The disk is full for a moment, and the file cannot be opened again; then all is well. -/
def fullDisk : List Append :=
  [⟨[97, 10], 0, .present 7, .opened (some 7), 1, .failed⟩,
    ⟨[98, 10], 0, .present 7, .opened (some 7), 2, .opened (some 7)⟩]

theorem not_file_kept : ¬ ∀ (t : Int) (fileStat : Nat) (rolloverMin : Int) (inode : Option Nat)
    (es : List Append), Keeps ((made t fileStat).init rolloverMin (.opened inode)).2 es := by
  intro claim
  obtain ⟨a, first, _, b, second, _⟩ := claim 0 0 60 (some 7) fullDisk
  have null : ((made 0 0).init 60 (.opened (some 7))).2.append
      ⟨[97, 10], 0, .present 7, .opened (some 7), 1, .failed⟩ >>= (fun a => a.append
        ⟨[98, 10], 0, .present 7, .opened (some 7), 2, .opened (some 7)⟩) = .error .nullPointer := by
    decide
  rw [first] at null
  cases second.symm.trans null

end LogFileAppender
end SmallRpc
