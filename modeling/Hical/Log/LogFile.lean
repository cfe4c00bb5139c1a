import Hical.Bytes
import Hical.Lib.Runs
import Mathlib.Data.List.Sort

/-! The log file that is rotated by its size. -/

namespace Hical.Log

/-- `LogFile::Options`, with the base path taken apart. -/
structure LogOptions where
  stem : Bytes
  ext : Bytes
  maxFileSize : Nat
  maxFiles : Nat

/-- What `localtime_r` gives, with the year as it is written. -/
structure LocalTime where
  year : Nat
  mon : Fin 12
  mday : Fin 32
  hour : Fin 24
  min : Fin 60
  sec : Fin 61

/-- `%0wd` of a number that has at most that many digits. -/
def padded (width n : Nat) : Bytes :=
  (List.range width).reverse.map fun i => UInt8.ofNat (48 + n / 10 ^ i % 10)

@[simp] theorem length_padded (width n : Nat) : (padded width n).length = width := by simp [padded]

def timeBuf (now : LocalTime) : Bytes :=
  padded 2 (now.year % 100) ++ padded 2 (now.mon + 1) ++ padded 2 now.mday ++ bytes "-" ++ padded 2 now.hour ++
    padded 2 now.min ++ padded 2 now.sec

def seqBuf (rotationSeq : Nat) : Bytes := bytes "." ++ padded 6 (rotationSeq % 1000000)

structure RotatedFile where
  name : Bytes
  contents : Bytes
  deriving DecidableEq

/-- `LogFile` and its directory. No call of the file system fails, and a process closes its file. -/
structure LogFile where
  base : Bytes := []
  writtenBytes : Nat := 0
  rotationSeq : Nat := 0
  /-- The rotated files on disk, in rotation order. -/
  rotated : List RotatedFile := []
  /-- Not in the code: all bytes appended, all files rotated, and what became of those that are
  not on disk. -/
  appended : Bytes := []
  history : List RotatedFile := []
  overwritten : List RotatedFile := []
  deleted : List RotatedFile := []

inductive LogEvent where
  /-- The clock is read where the file is rotated. -/
  | append (data : Bytes) (now : LocalTime)
  | restart

namespace LogFile

def openFile (s : LogFile) : LogFile := { s with writtenBytes := s.base.length }

def makeRotatedName (s : LogFile) (opts : LogOptions) (now : LocalTime) : Bytes :=
  opts.stem ++ bytes "." ++ (timeBuf now ++ seqBuf s.rotationSeq) ++ opts.ext

/-- The checks of `cleanOldFiles` on a file's name. -/
def isRotatedName (opts : LogOptions) (name : Bytes) : Bool :=
  let prefixLen := opts.stem.length + 1
  let middle := (name.drop prefixLen).take (name.length - prefixLen - opts.ext.length)
  name ≠ opts.stem ++ opts.ext ∧ (opts.stem ++ bytes ".").isPrefixOf name ∧ opts.ext.isSuffixOf name ∧
    prefixLen + opts.ext.length < name.length ∧
    middle.length = 20 ∧ middle[6]? = some 45 ∧ middle[13]? = some 46

def remove (s : LogFile) (name : Bytes) : LogFile :=
  { s with
    rotated := s.rotated.filter (·.name ≠ name)
    deleted := s.deleted ++ s.rotated.filter (·.name = name) }

/-- The loop that takes the front of the sorted names. -/
def removeOldest (maxFiles : Nat) : List Bytes → LogFile → LogFile
  | [], s => s
  | name :: names, s => if maxFiles < names.length + 1 then removeOldest maxFiles names (s.remove name) else s

def cleanOldFiles (s : LogFile) (opts : LogOptions) : LogFile :=
  let rotatedFiles := (s.rotated.map RotatedFile.name).filter (isRotatedName opts)
  removeOldest opts.maxFiles (rotatedFiles.insertionSort (· ≤ ·)) s

/-- `rename` replaces a file that has the name. -/
def rename (s : LogFile) (newName : Bytes) : LogFile :=
  { s with
    base := []
    rotated := s.rotated.filter (·.name ≠ newName) ++ [⟨newName, s.base⟩]
    history := s.history ++ [⟨newName, s.base⟩]
    overwritten := s.overwritten ++ s.rotated.filter (·.name = newName)
    rotationSeq := (s.rotationSeq + 1) % 2 ^ 64 }

def rotate (s : LogFile) (opts : LogOptions) (now : LocalTime) : LogFile :=
  let renamed := s.rename (s.makeRotatedName opts now)
  (if 0 < opts.maxFiles then renamed.cleanOldFiles opts else renamed).openFile

def Rotates (s : LogFile) (opts : LogOptions) (data : Bytes) : Prop :=
  0 < opts.maxFileSize ∧ opts.maxFileSize < s.writtenBytes + data.length

instance : Decidable (Rotates s opts data) := inferInstanceAs (Decidable (_ ∧ _))

def write (s : LogFile) (data : Bytes) : LogFile :=
  { s with
    base := s.base ++ data
    writtenBytes := s.writtenBytes + data.length
    appended := s.appended ++ data }

def append (s : LogFile) (opts : LogOptions) (data : Bytes) (now : LocalTime) : LogFile :=
  (if s.Rotates opts data then s.rotate opts now else s).write data

def step (opts : LogOptions) (s : LogFile) : LogEvent → LogFile
  | .append data now => s.append opts data now
  | .restart => { s with rotationSeq := 0 }.openFile

/-- The newest data is there, and nothing but clean-up took the rest, from its start. -/
structure Retained (s : LogFile) : Prop where
  suffix : s.rotated.flatMap RotatedFile.contents ++ s.base <:+ s.appended
  noOverwrite : s.overwritten = []
  earliest : s.deleted ++ s.rotated = s.history

/-- The new name is free, and where clean-up has to delete a file, the file rotated earliest has the
least name. -/
def InOrder (s : LogFile) (opts : LogOptions) (now : LocalTime) : Prop :=
  (∀ f ∈ s.rotated, f.name ≠ s.makeRotatedName opts now) ∧
  (0 < opts.maxFiles → opts.maxFiles ≤ s.rotated.length → ∀ first rest, s.rotated = first :: rest →
    first.name ≤ s.makeRotatedName opts now ∧ ∀ f ∈ rest, first.name ≤ f.name)

def StepInOrder (opts : LogOptions) (s : LogFile) : LogEvent → Prop
  | .append data now => s.Rotates opts data → s.InOrder opts now
  | .restart => True

/-- What holds whatever the clock says. -/
structure Inv (opts : LogOptions) (s : LogFile) : Prop where
  names : (s.rotated.map RotatedFile.name).Nodup
  format : ∀ f ∈ s.rotated, isRotatedName opts f.name
  bytes : s.appended = s.history.flatMap RotatedFile.contents ++ s.base

def Few (opts : LogOptions) (s : LogFile) : Prop := 0 < opts.maxFiles → s.rotated.length ≤ opts.maxFiles

/-- Every file rotated is deleted or on disk, and the deleted ones come first. -/
def Accounted (s : LogFile) : Prop := s.overwritten = [] ∧ s.deleted ++ s.rotated = s.history

variable {opts : LogOptions} {s s' : LogFile} {now : LocalTime}

theorem length_middle (now : LocalTime) (rotationSeq : Nat) : (timeBuf now ++ seqBuf rotationSeq).length = 20 := by
  simp [timeBuf, seqBuf, bytes]

theorem length_makeRotatedName (opts : LogOptions) (s : LogFile) (now : LocalTime) :
    (s.makeRotatedName opts now).length = opts.stem.length + 1 + 20 + opts.ext.length := by
  rw [makeRotatedName, List.length_append, List.length_append, length_middle, List.length_append]
  rfl

theorem isRotatedName_makeRotatedName : isRotatedName opts (s.makeRotatedName opts now) := by
  have hlong := length_makeRotatedName opts s now
  have hlength := length_middle now s.rotationSeq
  have hmiddle : ((s.makeRotatedName opts now).drop (opts.stem.length + 1)).take
      ((s.makeRotatedName opts now).length - (opts.stem.length + 1) - opts.ext.length) =
        timeBuf now ++ seqBuf s.rotationSeq := by
    have hdrop : (s.makeRotatedName opts now).drop (opts.stem.length + 1) =
        (timeBuf now ++ seqBuf s.rotationSeq) ++ opts.ext := by
      rw [makeRotatedName, List.append_assoc]
      exact List.drop_left' (by simp [bytes])
    rw [hdrop, hlong]
    apply List.take_left'
    rw [hlength]
    omega
  rw [isRotatedName, hmiddle, hlong]
  apply decide_eq_true
  refine ⟨fun heq => ?_, ?_, ?_, by omega, hlength, rfl, rfl⟩
  · have hlengths := congrArg List.length heq
    rw [hlong, List.length_append] at hlengths
    omega
  · rw [List.isPrefixOf_iff_prefix, makeRotatedName, List.append_assoc]
    exact List.prefix_append _ _
  · rw [List.isSuffixOf_iff_suffix]
    exact List.suffix_append _ _

/-- What is left after one more rotation is either kept or loses the file of the least name. -/
inductive Cleaned (opts : LogOptions) (s : LogFile) : LogFile → Prop
  | kept (hfew : s.rotated.length ≤ opts.maxFiles) : Cleaned opts s s
  | lost (hmany : s.rotated.length = opts.maxFiles + 1) (name : Bytes) (hname : name ∈ s.rotated.map RotatedFile.name)
      (hleast : ∀ f ∈ s.rotated, name ≤ f.name) : Cleaned opts s (s.remove name)

theorem removeOldest_few (names : List Bytes) (h : names.length ≤ maxFiles) : removeOldest maxFiles names s = s := by
  cases names with
  | nil => rfl
  | cons name names => exact if_neg (Nat.not_lt.2 h)

theorem cleanOldFiles_cleaned (hf : ∀ f ∈ s.rotated, isRotatedName opts f.name)
    (hl : s.rotated.length ≤ opts.maxFiles + 1) : Cleaned opts s (s.cleanOldFiles opts) := by
  have hall : (s.rotated.map RotatedFile.name).filter (isRotatedName opts) = s.rotated.map RotatedFile.name := by
    apply List.filter_eq_self.2
    intro name hn
    obtain ⟨f, hm, rfl⟩ := List.mem_map.1 hn
    exact hf f hm
  rw [cleanOldFiles, hall]
  have hperm := List.perm_insertionSort (· ≤ ·) (s.rotated.map RotatedFile.name)
  have hsorted := List.pairwise_insertionSort (· ≤ ·) (s.rotated.map RotatedFile.name)
  have hlength : ((s.rotated.map RotatedFile.name).insertionSort (· ≤ ·)).length = s.rotated.length :=
    hperm.length_eq.trans (List.length_map _)
  by_cases hmany : s.rotated.length ≤ opts.maxFiles
  · rw [removeOldest_few _ (hlength.trans_le hmany)]
    exact .kept hmany
  · have hmany : s.rotated.length = opts.maxFiles + 1 := by omega
    cases hnames : (s.rotated.map RotatedFile.name).insertionSort (· ≤ ·) with
    | nil =>
      rw [hnames, hmany] at hlength
      cases hlength
    | cons name names =>
      rw [hnames] at hperm hsorted hlength
      have hrest : names.length = opts.maxFiles := Nat.succ.inj (hlength.trans hmany)
      have hone : removeOldest opts.maxFiles (name :: names) s = s.remove name := by
        rw [removeOldest, if_pos (by omega)]
        exact removeOldest_few names (Nat.le_of_eq hrest)
      rw [hone]
      apply Cleaned.lost hmany name
      · exact hperm.subset (List.mem_cons_self ..)
      · intro f hm
        have hmem := hperm.symm.subset (List.mem_map_of_mem (f := RotatedFile.name) hm)
        rcases List.mem_cons.1 hmem with heq | hmem
        · rw [heq]
          exact List.le_refl _
        · exact List.rel_of_pairwise_cons hsorted hmem

theorem Inv.retained_iff (h : Inv opts s) : Retained s ↔ s.Accounted := by
  constructor
  · intro hr
    exact ⟨hr.noOverwrite, hr.earliest⟩
  · intro ⟨hover, hall⟩
    refine ⟨?_, hover, hall⟩
    rw [h.bytes, ← hall, List.flatMap_append, List.append_assoc]
    exact List.suffix_append _ _

theorem Inv.rename (h : Inv opts s) (now : LocalTime) : Inv opts (s.rename (s.makeRotatedName opts now)) where
  names := by
    rw [LogFile.rename, List.map_append, List.map_singleton]
    apply List.Nodup.append
    · exact (List.filter_sublist.map _).nodup h.names
    · exact List.nodup_singleton _
    · rw [List.disjoint_singleton]
      intro hm
      obtain ⟨f, hf, hname⟩ := List.mem_map.1 hm
      exact of_decide_eq_true (List.mem_filter.1 hf).2 hname
  format f hm := by
    rcases List.mem_append.1 hm with hm | hm
    · exact h.format f (List.mem_of_mem_filter hm)
    · rw [List.mem_singleton.1 hm]
      exact isRotatedName_makeRotatedName
  bytes := by
    have hbytes := h.bytes
    change s.appended = (s.history ++ [RotatedFile.mk _ s.base]).flatMap RotatedFile.contents ++ []
    rw [List.flatMap_append, List.flatMap_singleton, List.append_nil]
    exact hbytes

theorem Inv.remove (h : Inv opts s) (name : Bytes) : Inv opts (s.remove name) where
  names := (List.filter_sublist.map _).nodup h.names
  format f hm := h.format f (List.mem_of_mem_filter hm)
  bytes := h.bytes

theorem Few.rename (h : Few opts s) (hmax : 0 < opts.maxFiles) (newName : Bytes) :
    (s.rename newName).rotated.length ≤ opts.maxFiles + 1 := by
  rw [LogFile.rename, List.length_append, List.length_singleton]
  exact Nat.succ_le_succ (Nat.le_trans (List.length_filter_le _ _) (h hmax))

theorem length_remove (hname : name ∈ s.rotated.map RotatedFile.name) :
    (s.remove name).rotated.length < s.rotated.length := by
  obtain ⟨f, hf, hname⟩ := List.mem_map.1 hname
  apply List.length_filter_lt_length_iff_exists.2
  exact ⟨f, hf, by simp [hname]⟩

theorem Inv.rotate (h : Inv opts s) (hf : Few opts s) (now : LocalTime) :
    Inv opts (s.rotate opts now) ∧ Few opts (s.rotate opts now) := by
  have hrename := h.rename now
  rw [LogFile.rotate]
  split
  · next hmax =>
    have hcleaned := cleanOldFiles_cleaned hrename.format (hf.rename hmax _)
    revert hcleaned
    generalize (s.rename (s.makeRotatedName opts now)).cleanOldFiles opts = cleaned
    intro hcleaned
    cases hcleaned with
    | kept hfew => exact ⟨⟨hrename.names, hrename.format, hrename.bytes⟩, fun _ => hfew⟩
    | lost hmany name hname _ =>
      have hremove := hrename.remove name
      have hless := length_remove hname
      exact ⟨⟨hremove.names, hremove.format, hremove.bytes⟩, fun _ => Nat.le_of_lt_succ (Nat.lt_of_lt_of_eq hless hmany)⟩
  · next hmax => exact ⟨⟨hrename.names, hrename.format, hrename.bytes⟩, fun hpos => absurd hpos hmax⟩

theorem removed_front {first : RotatedFile} {rest : List RotatedFile}
    (hnames : ((first :: rest).map RotatedFile.name).Nodup) (hname : name ∈ (first :: rest).map RotatedFile.name)
    (hleast : ∀ f ∈ first :: rest, name ≤ f.name) :
    (first :: rest).filter (·.name = name) ++ (first :: rest).filter (·.name ≠ name) = first :: rest ↔
      ∀ f ∈ rest, first.name ≤ f.name := by
  constructor
  · intro heq f hf
    have hfirst : first.name = name := by
      obtain ⟨g, hg, hgname⟩ := List.mem_map.1 hname
      cases hc : (first :: rest).filter (·.name = name) with
      | nil =>
        have hmem : g ∈ (first :: rest).filter (·.name = name) := List.mem_filter.2 ⟨hg, decide_eq_true hgname⟩
        rw [hc] at hmem
        cases hmem
      | cons g' others =>
        have hmem : g' ∈ (first :: rest).filter (·.name = name) := by
          rw [hc]
          exact List.mem_cons_self ..
        rw [hc] at heq
        have hhead : g' = first := (List.cons.inj heq).1
        rw [← hhead]
        exact of_decide_eq_true (List.mem_filter.1 hmem).2
    rw [hfirst]
    exact hleast f (List.mem_cons_of_mem _ hf)
  · intro hfront
    have hfirst : name = first.name := by
      apply List.le_antisymm (hleast first (List.mem_cons_self ..))
      obtain ⟨g, hg, rfl⟩ := List.mem_map.1 hname
      rcases List.mem_cons.1 hg with rfl | hg
      · exact List.le_refl _
      · exact hfront g hg
    have hothers : ∀ f ∈ rest, f.name ≠ name := by
      intro f hf heq
      rw [hfirst] at heq
      apply (List.nodup_cons.1 hnames).1
      rw [← heq]
      exact List.mem_map_of_mem hf
    rw [List.filter_cons, if_pos (decide_eq_true hfirst.symm), List.filter_cons, if_neg (by simp [hfirst])]
    rw [List.filter_eq_nil_iff.2 fun f hf => by simp [hothers f hf]]
    rw [List.filter_eq_self.2 fun f hf => decide_eq_true (hothers f hf)]
    rfl

theorem removeOldest_overwritten (names : List Bytes) (s : LogFile) :
    (removeOldest maxFiles names s).overwritten = s.overwritten := by
  induction names generalizing s with
  | nil => rfl
  | cons name names ih =>
    rw [removeOldest]
    split
    · exact ih _
    · rfl

theorem rotate_overwritten : (s.rotate opts now).overwritten =
    s.overwritten ++ s.rotated.filter (·.name = s.makeRotatedName opts now) := by
  rw [LogFile.rotate]
  split
  · exact removeOldest_overwritten _ _
  · rfl

theorem rotated_rename (hfresh : ∀ f ∈ s.rotated, f.name ≠ newName) :
    (s.rename newName).rotated = s.rotated ++ [⟨newName, s.base⟩] := by
  rw [LogFile.rename, List.filter_eq_self.2 fun f hf => decide_eq_true (hfresh f hf)]

theorem Accounted.rename (h : s.Accounted) (hfresh : ∀ f ∈ s.rotated, f.name ≠ newName) :
    (s.rename newName).Accounted := by
  constructor
  · change s.overwritten ++ s.rotated.filter (·.name = newName) = []
    rw [h.1, List.filter_eq_nil_iff.2 fun f hf => by simp [hfresh f hf]]
    rfl
  · rw [rotated_rename hfresh, ← List.append_assoc]
    change s.deleted ++ s.rotated ++ _ = s.history ++ _
    rw [h.2]

theorem Accounted.remove_iff (h : s.Accounted) :
    (s.remove name).Accounted ↔ s.rotated.filter (·.name = name) ++ s.rotated.filter (·.name ≠ name) = s.rotated := by
  rw [Accounted, and_iff_right (show (s.remove name).overwritten = [] from h.1)]
  change (s.deleted ++ s.rotated.filter (·.name = name)) ++ s.rotated.filter (·.name ≠ name) = s.history ↔ _
  rw [← h.2, List.append_assoc, List.append_right_inj]

theorem Inv.accounted_rotate (h : Inv opts s) (hf : Few opts s) (ha : s.Accounted) (now : LocalTime) :
    (s.rotate opts now).Accounted ↔ s.InOrder opts now := by
  by_cases hfresh : ∀ f ∈ s.rotated, f.name ≠ s.makeRotatedName opts now
  · have hrename := h.rename now
    have hacc := ha.rename hfresh
    have hdisk := rotated_rename hfresh
    by_cases hmax : 0 < opts.maxFiles
    · have hcleaned := cleanOldFiles_cleaned hrename.format (hf.rename hmax _)
      rw [LogFile.rotate, if_pos hmax]
      revert hcleaned
      generalize (s.rename (s.makeRotatedName opts now)).cleanOldFiles opts = cleaned
      intro hcleaned
      cases hcleaned with
      | kept hfew =>
        rw [hdisk, List.length_append, List.length_singleton] at hfew
        exact iff_of_true hacc ⟨hfresh, fun _ hfull => absurd hfull (Nat.not_le.2 hfew)⟩
      | lost hmany name hname hleast =>
        rw [hdisk, List.length_append, List.length_singleton] at hmany
        have hfull : s.rotated.length = opts.maxFiles := Nat.succ.inj hmany
        have hnames := hrename.names
        rw [hdisk] at hname hleast hnames
        apply hacc.remove_iff.trans
        rw [hdisk]
        cases hrotated : s.rotated with
        | nil =>
          rw [hrotated] at hfull
          exact absurd hfull (Nat.ne_of_lt hmax)
        | cons first rest =>
          rw [hrotated] at hname hleast hnames
          apply (removed_front hnames hname hleast).trans
          constructor
          · intro hfront
            refine ⟨hfresh, fun _ _ first' rest' heq => ?_⟩
            obtain ⟨rfl, rfl⟩ := List.cons.inj (hrotated.symm.trans heq)
            exact ⟨hfront _ (List.mem_append_right _ (List.mem_singleton.2 rfl)),
              fun f hm => hfront f (List.mem_append_left _ hm)⟩
          · intro hin f hm
            obtain ⟨hnew, hold⟩ := hin.2 hmax (Nat.le_of_eq hfull.symm) first rest hrotated
            rcases List.mem_append.1 hm with hm | hm
            · exact hold f hm
            · rw [List.mem_singleton.1 hm]
              exact hnew
    · rw [LogFile.rotate, if_neg hmax]
      exact iff_of_true hacc ⟨hfresh, fun hpos => absurd hpos hmax⟩
  · apply iff_of_false
    · intro hr
      apply hfresh
      intro f hm heq
      have hover := hr.1
      rw [rotate_overwritten, List.append_eq_nil_iff] at hover
      exact List.filter_eq_nil_iff.1 hover.2 f hm (decide_eq_true heq)
    · exact fun hin => hfresh hin.1

/-- What holds in every state of a run that is in order. -/
structure Sound (opts : LogOptions) (s : LogFile) : Prop where
  inv : Inv opts s
  few : Few opts s
  retained : Retained s

theorem Inv.write (h : Inv opts s) (data : Bytes) : Inv opts (s.write data) where
  names := h.names
  format := h.format
  bytes := by
    change s.appended ++ data = s.history.flatMap RotatedFile.contents ++ (s.base ++ data)
    rw [h.bytes, List.append_assoc]

theorem Inv.step (h : Inv opts s) (hf : Few opts s) (e : LogEvent) : Inv opts (s.step opts e) ∧ Few opts (s.step opts e) := by
  cases e with
  | append data now =>
    rw [LogFile.step, LogFile.append]
    split
    · obtain ⟨hinv, hfew⟩ := h.rotate hf now
      exact ⟨hinv.write data, hfew⟩
    · exact ⟨h.write data, hf⟩
  | restart => exact ⟨⟨h.names, h.format, h.bytes⟩, hf⟩

theorem Sound.step (h : Sound opts s) (e : LogEvent) : Sound opts (s.step opts e) ↔ s.StepInOrder opts e := by
  obtain ⟨hinv, hfew⟩ := h.inv.step h.few e
  have hacc := h.inv.retained_iff.1 h.retained
  have hsound : Sound opts (s.step opts e) ↔ (s.step opts e).Accounted := by
    rw [← hinv.retained_iff]
    exact ⟨Sound.retained, fun hr => ⟨hinv, hfew, hr⟩⟩
  apply hsound.trans
  cases e with
  | append data now =>
    rw [LogFile.step, LogFile.append]
    split
    · next hrotates =>
      apply (h.inv.accounted_rotate h.few hacc now).trans
      exact ⟨fun hin _ => hin, fun hin => hin hrotates⟩
    · next hrotates => exact iff_of_true hacc fun hr => absurd hr hrotates
  | restart => exact iff_of_true hacc trivial

theorem sound_start : Sound opts {} where
  inv := ⟨List.nodup_nil, fun _ hm => (nomatch hm), rfl⟩
  few _ := Nat.zero_le _
  retained := ⟨List.suffix_refl _, rfl, rfl⟩

theorem inv_run (opts : LogOptions) (events : List LogEvent) (n : Nat) : Inv opts ((events.take n).foldl (LogFile.step opts) {}) ∧
    Few opts ((events.take n).foldl (LogFile.step opts) {}) :=
  Runs.invariant (P := fun s => Inv opts s ∧ Few opts s) _ _ _ ⟨sound_start.inv, sound_start.few⟩
    (fun _ e _ h => h.1.step h.2 e) n

/-- In all states of a run, the newest data is retained exactly where each rotation is in order. -/
theorem retained_iff_inOrder (opts : LogOptions) (events : List LogEvent) :
    (∀ n, Retained ((events.take n).foldl (LogFile.step opts) {})) ↔
      Runs.Along (LogFile.step opts) (StepInOrder opts) {} events := by
  apply Iff.trans _ (Runs.invariant_iff_along (I := Sound opts) sound_start fun _ e h => h.step e)
  constructor
  · intro h n
    obtain ⟨hinv, hfew⟩ := inv_run opts events n
    exact ⟨hinv, hfew, h n⟩
  · intro h n
    exact (h n).retained

theorem removeOldest_base (names : List Bytes) (s : LogFile) :
    (removeOldest maxFiles names s).base = s.base ∧ (removeOldest maxFiles names s).history = s.history := by
  induction names generalizing s with
  | nil => exact ⟨rfl, rfl⟩
  | cons name names ih => grind [removeOldest, remove]

/-- Nothing larger than the limit is in one file, but for a single entry that is. -/
def Sized (opts : LogOptions) (events : List LogEvent) (s : LogFile) : Prop :=
  s.writtenBytes = s.base.length ∧ ∀ contents ∈ s.base :: s.history.map RotatedFile.contents,
    contents.length ≤ opts.maxFileSize ∨ opts.maxFileSize = 0 ∨ ∃ now, .append contents now ∈ events

theorem sized_run (opts : LogOptions) (events : List LogEvent) (n : Nat) :
    Sized opts events ((events.take n).foldl (LogFile.step opts) {}) := by
  apply Runs.invariant (P := Sized opts events) (LogFile.step opts) {} events ⟨rfl, by simp⟩
  intro n e hn h
  have he := List.mem_of_getElem? hn
  cases e with
  | append data now =>
    rw [LogFile.step, LogFile.append]
    split
    · grind [write, Sized, rotate, openFile, cleanOldFiles, removeOldest_base, rename]
    · grind [write, Sized, Rotates]
  | restart => exact ⟨rfl, h.2⟩

def beforeTwo (minute : Fin 60) : LocalTime := ⟨2026, 9, 25, 2, minute, 0⟩

/-- Between the two rotations, the local time goes back by half an hour. -/
def clockBack : List LogEvent :=
  [.append [97] (beforeTwo 50), .append [98] (beforeTwo 50), .append [99] (beforeTwo 20)]

/-- The clean-up deletes the file that was just rotated, and keeps the older one. -/
theorem clockBack_lost : ¬Retained (clockBack.foldl (LogFile.step ⟨[97], [], 1, 1⟩) {}) := by
  intro h
  have hkept := h.suffix
  revert hkept
  decide +kernel

end LogFile

end Hical.Log
