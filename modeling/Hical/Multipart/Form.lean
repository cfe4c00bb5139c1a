import Hical.Multipart.Parser

namespace Hical.Multipart
open Search

def OneLine (s : Bytes) : Prop := CR ∉ s ∧ LF ∉ s

instance (s : Bytes) : Decidable (OneLine s) := inferInstanceAs (Decidable (CR ∉ s ∧ LF ∉ s))

/-- Names and file names as they stand between quotes. -/
def Quotable (s : Bytes) : Prop := OneLine s ∧ quote ∉ s

structure PartHeader extends Field where
  name_ne : name ≠ []
  visible : ∀ b ∈ name, 33 ≤ b ∧ b ≤ 126 ∧ b ≠ colon
  other : iequals name (bytes "Content-Disposition") = false
  oneLine : OneLine value
  trimmed : iequals name (bytes "Content-Type") = true → trim value = value

namespace PartHeader

def isType (h : PartHeader) : Bool := iequals h.name (bytes "Content-Type")

def line (h : PartHeader) : Bytes := h.name ++ colon :: SP :: h.value

end PartHeader

/-- A part of a form: what is to be transmitted. -/
structure FormPart where
  name : Bytes
  filename : Option Bytes
  before : List PartHeader
  after : List PartHeader
  data : Bytes
  name_ok : Quotable name
  filename_ok : ∀ f ∈ filename, Quotable f
  oneType : ((before ++ after).filter PartHeader.isType).length ≤ 1

def quoted (s : Bytes) : Bytes := quote :: (s ++ [quote])

namespace FormPart

def contentType (p : FormPart) : Bytes :=
  Fields.find ((p.before ++ p.after).map PartHeader.toField) (bytes "Content-Type")

def nameParam (p : FormPart) : Bytes := bytes " name=" ++ quoted p.name

def filenameParams (p : FormPart) : List Bytes := p.filename.toList.map fun f => bytes " filename=" ++ quoted f

def disposition (p : FormPart) : Bytes :=
  bytes "form-data" ++ semicolon :: [semicolon].intercalate (p.nameParam :: p.filenameParams)

def dispositionLine (p : FormPart) : Bytes := bytes "Content-Disposition" ++ colon :: SP :: p.disposition

def headerLines (p : FormPart) : List Bytes :=
  p.before.map PartHeader.line ++ p.dispositionLine :: p.after.map PartHeader.line

/-- The header block, without the line end and the empty line behind it. -/
def block (p : FormPart) : Bytes := crlf.intercalate p.headerLines

/-- What a receiver is to know of the part. -/
def fields (p : FormPart) : Bytes × Bytes × Bytes × Bytes := (p.name, p.filename.getD [], p.contentType, p.data)

end FormPart

def MultipartPart.fields (p : MultipartPart) : Bytes × Bytes × Bytes × Bytes :=
  (p.name, p.filename, p.contentType, p.data)

/-- The encoding of a list of parts; `d` is the dashed boundary. -/
def encode (d : Bytes) : List FormPart → Bytes
  | [] => d ++ (dashes ++ crlf)
  | p :: ps => d ++ (crlf ++ (p.block ++ (crlf ++ (crlf ++ (p.data ++ (crlf ++ encode d ps))))))

section Text
variable {P : UInt8 → Bool} {x y s : Bytes} {c : UInt8}

theorem OneLine.append (hx : OneLine x) (hy : OneLine y) : OneLine (x ++ y) := by
  constructor
  · rw [List.mem_append, not_or]
    exact ⟨hx.1, hy.1⟩
  · rw [List.mem_append, not_or]
    exact ⟨hx.2, hy.2⟩

theorem OneLine.cons (hb : c ≠ CR ∧ c ≠ LF) (hx : OneLine x) : OneLine (c :: x) :=
  ⟨List.not_mem_cons_of_ne_of_not_mem (Ne.symm hb.1) hx.1, List.not_mem_cons_of_ne_of_not_mem (Ne.symm hb.2) hx.2⟩

theorem trimWith_append (hc : P c = false) (x y : Bytes) :
    trimWith P (x ++ c :: y) = x.dropWhile P ++ c :: (y.reverse.dropWhile P).reverse := by
  have hfront : (x ++ c :: y).dropWhile P = x.dropWhile P ++ c :: y := by
    induction x with
    | nil => exact List.dropWhile_cons_of_neg (by simp [hc])
    | cons b x ih =>
      cases hb : P b with
      | false => simp [hb]
      | true => simp [hb, ih]
  have hback : ∀ z : Bytes, (z ++ c :: (x.dropWhile P).reverse).dropWhile P =
      z.dropWhile P ++ c :: (x.dropWhile P).reverse := by
    intro z
    induction z with
    | nil => exact List.dropWhile_cons_of_neg (by simp [hc])
    | cons b z ih =>
      cases hb : P b with
      | false => simp [hb]
      | true => simp [hb, ih]
  rw [trimWith, hfront, List.reverse_append, List.reverse_cons, List.append_assoc, List.singleton_append, hback]
  simp

theorem trimWith_cons (hc : P c = true) (s : Bytes) : trimWith P (c :: s) = trimWith P s := by
  rw [trimWith, trimWith, List.dropWhile_cons_of_pos hc]

theorem trimWith_between (hb : P b = false) (hc : P c = false) (s : Bytes) :
    trimWith P (b :: (s ++ [c])) = b :: (s ++ [c]) := by
  have h := trimWith_append hc (b :: s) []
  rw [List.dropWhile_cons_of_neg (by simp [hb])] at h
  exact h

theorem trimWith_self (h : ∀ b ∈ s, P b = false) : trimWith P s = s := by
  cases s with
  | nil => rfl
  | cons b s =>
    have hb := h b List.mem_cons_self
    cases hs : s.reverse with
    | nil =>
      rw [List.reverse_eq_nil_iff.1 hs, trimWith, List.dropWhile_cons_of_neg (by simp [hb]), List.reverse_singleton,
        List.dropWhile_cons_of_neg (by simp [hb]), List.reverse_singleton]
    | cons c t =>
      have hcut : s = t.reverse ++ [c] := by rw [← List.reverse_reverse s, hs, List.reverse_cons]
      have hc := h c (by rw [hcut]; simp)
      rw [hcut]
      exact trimWith_between hb hc _

theorem trim_quoted (s : Bytes) : trim (quoted s) = quoted s := trimWith_between (by decide) (by decide) s

theorem unquote_quoted (s : Bytes) : unquote (quoted s) = s := by
  rw [unquote, if_pos]
  · exact List.dropLast_concat
  · refine ⟨?_, rfl, ?_⟩
    · simp [quoted]
    · rw [quoted, ← List.cons_append, List.getLast?_concat]

theorem not_mem_quoted (hs : c ∉ s) (hc : c ≠ quote) : c ∉ quoted s := by
  rw [quoted, List.mem_cons, List.mem_append, List.mem_singleton]
  rintro (h | h | h)
  · exact hc h
  · exact hs h
  · exact hc h

end Text

theorem isSpace_visible (h : 33 ≤ b) : isSpace b = false := by
  rw [isSpace, Bool.or_eq_false_iff, Bool.and_eq_false_iff]
  constructor
  · apply beq_false_of_ne
    rintro rfl
    exact absurd h (by decide)
  · right
    apply decide_eq_false
    intro hb
    exact absurd (UInt8.le_trans h hb) (by decide)

namespace PartHeader
variable (h : PartHeader)

theorem oneLine_line : OneLine h.line := by
  have hname : OneLine h.name := by
    constructor
    · intro hm
      exact absurd (h.visible CR hm).1 (by decide)
    · intro hm
      exact absurd (h.visible LF hm).1 (by decide)
  exact hname.append ((h.oneLine.cons (by decide)).cons (by decide))

theorem line_ne : h.line ≠ [] := List.append_ne_nil_of_left_ne_nil h.name_ne _

theorem cut_line : cut colon h.line = (h.name, some (SP :: h.value)) :=
  cut_append_sep (fun hm => (h.visible colon hm).2.2 rfl) _

theorem trim_name : trim h.name = h.name := trimWith_self fun b hb => isSpace_visible (h.visible b hb).1

end PartHeader

/-- The loop reads another header; of the four fields, only the content type can change. -/
theorem headerLine_line (part : MultipartPart) (h : PartHeader) :
    (headerLine part h.line).name = part.name ∧ (headerLine part h.line).filename = part.filename ∧
      (headerLine part h.line).contentType = if h.isType then h.value else part.contentType := by
  have hother : h.name.map toLower ≠ bytes "content-disposition" := by
    intro heq
    have hno := h.other
    rw [iequals, heq] at hno
    exact absurd hno (by decide)
  have htype : (h.name.map toLower = bytes "content-type") ↔ h.isType = true := by
    rw [PartHeader.isType, iequals_iff]
    exact Iff.rfl
  have hval : trim (SP :: h.value) = trim h.value := trimWith_cons (by decide) _
  rw [headerLine, h.cut_line]
  simp only [h.trim_name, hother, htype, hval, ↓reduceIte]
  by_cases ht : h.isType = true
  · rw [if_pos ht, if_pos ht]
    exact ⟨rfl, rfl, h.trimmed ht⟩
  · rw [if_neg ht, if_neg ht]
    exact ⟨rfl, rfl, rfl⟩

/-- The content type that the loop has after these headers. -/
def typeAfter (c : Bytes) (hs : List PartHeader) : Bytes := hs.foldl (fun c h => if h.isType then h.value else c) c

theorem headerLines_fold (hs : List PartHeader) (part : MultipartPart) :
    ((hs.map PartHeader.line).foldl headerLine part).name = part.name ∧
      ((hs.map PartHeader.line).foldl headerLine part).filename = part.filename ∧
      ((hs.map PartHeader.line).foldl headerLine part).contentType = typeAfter part.contentType hs := by
  induction hs generalizing part with
  | nil => exact ⟨rfl, rfl, rfl⟩
  | cons h hs ih =>
    obtain ⟨hname, hfile, htype⟩ := headerLine_line part h
    obtain ⟨hname', hfile', htype'⟩ := ih (headerLine part h.line)
    rw [htype] at htype'
    exact ⟨hname'.trans hname, hfile'.trans hfile, htype'⟩

theorem typeAfter_of_none (h : hs.filter PartHeader.isType = []) (c : Bytes) : typeAfter c hs = c := by
  induction hs with
  | nil => rfl
  | cons e hs ih =>
    have he : ¬ e.isType = true := List.filter_eq_nil_iff.1 h e List.mem_cons_self
    rw [List.filter_cons_of_neg he] at h
    rw [typeAfter, List.foldl_cons, if_neg he]
    exact ih h

theorem typeAfter_eq (h : (hs.filter PartHeader.isType).length ≤ 1) :
    typeAfter [] hs = Fields.find (hs.map PartHeader.toField) (bytes "Content-Type") := by
  induction hs with
  | nil => rfl
  | cons e hs ih =>
    rw [List.map_cons, Fields.find_cons, typeAfter, List.foldl_cons]
    by_cases he : e.isType = true
    · rw [List.filter_cons_of_pos he, List.length_cons] at h
      have hnil : hs.filter PartHeader.isType = [] := List.length_eq_zero_iff.1 (by omega)
      rw [if_pos he]
      rw [PartHeader.isType] at he
      rw [if_pos he]
      exact typeAfter_of_none hnil _
    · rw [List.filter_cons_of_neg he] at h
      rw [if_neg he]
      rw [PartHeader.isType] at he
      rw [if_neg he]
      exact ih h

theorem dispositionParam_quoted (part : MultipartPart) (k : UInt8) (key : Bytes) (hk : isSpace k = false)
    (hkey : trim (k :: key) = k :: key) (heq : equalSign ∉ k :: key) (v : Bytes) :
    dispositionParam part (SP :: (k :: key ++ equalSign :: quoted v)) =
      if k :: key = bytes "name" then { part with name := v }
      else if k :: key = bytes "filename" then { part with filename := v }
      else part := by
  have htrim : trim (SP :: (k :: key ++ equalSign :: quoted v)) = k :: key ++ equalSign :: quoted v := by
    have hshape : k :: key ++ equalSign :: quoted v = k :: (key ++ equalSign :: quote :: v ++ [quote]) := by
      simp [quoted]
    rw [trim, trimWith_cons (by decide), hshape]
    exact trimWith_between hk (by decide) _
  rw [dispositionParam, htrim, cut_append_sep heq]
  simp only [hkey, trim_quoted, unquote_quoted]

theorem dispositionParam_name (part : MultipartPart) (v : Bytes) :
    dispositionParam part (bytes " name=" ++ quoted v) = { part with name := v } :=
  dispositionParam_quoted part 110 (bytes "ame") (by decide) (by decide) (by decide) v

theorem dispositionParam_filename (part : MultipartPart) (v : Bytes) :
    dispositionParam part (bytes " filename=" ++ quoted v) = { part with filename := v } :=
  dispositionParam_quoted part 102 (bytes "ilename") (by decide) (by decide) (by decide) v

namespace FormPart
variable (p : FormPart)

def Unsplit : Prop := semicolon ∉ p.name ∧ ∀ f ∈ p.filename, semicolon ∉ f

theorem parseDispositionParams_disposition (h : p.Unsplit) (part : MultipartPart) :
    parseDispositionParams p.disposition part =
      { part with name := p.name, filename := p.filename.getD part.filename } := by
  have hpieces : ∀ l ∈ p.nameParam :: p.filenameParams, semicolon ∉ l := by
    intro l hl
    rcases List.mem_cons.1 hl with rfl | hl
    · rw [nameParam, List.mem_append, not_or]
      exact ⟨by decide, not_mem_quoted h.1 (by decide)⟩
    · obtain ⟨f, hf, rfl⟩ := List.mem_map.1 hl
      rw [List.mem_append, not_or]
      exact ⟨by decide, not_mem_quoted (h.2 f (Option.mem_toList.1 hf)) (by decide)⟩
  have hsplit := List.splitOn_intercalate semicolon hpieces (List.cons_ne_nil _ _)
  rw [parseDispositionParams, disposition, cut_append_sep (by decide)]
  dsimp only
  rw [hsplit, List.foldl_cons, nameParam, dispositionParam_name]
  cases hf : p.filename with
  | none => simp [filenameParams, hf]
  | some f => simp [filenameParams, hf, dispositionParam_filename]

theorem disposition_none (h : p.filename = none) : p.disposition = bytes "form-data" ++ semicolon :: p.nameParam := by
  simp [disposition, filenameParams, h]

theorem disposition_some (h : p.filename = some f) :
    p.disposition =
      bytes "form-data" ++ semicolon :: (p.nameParam ++ semicolon :: (bytes " filename=" ++ quoted f)) := by
  simp [disposition, filenameParams, h]

theorem oneLine_quoted (h : OneLine v) : OneLine (quoted v) :=
  OneLine.cons (by decide) (h.append (by decide))

theorem oneLine_disposition : OneLine p.disposition := by
  have hname : OneLine p.nameParam := OneLine.append (by decide) (oneLine_quoted p.name_ok.1)
  cases hf : p.filename with
  | none =>
    rw [p.disposition_none hf]
    exact OneLine.append (by decide) (hname.cons (by decide))
  | some f =>
    have hfile : OneLine (bytes " filename=" ++ quoted f) :=
      OneLine.append (by decide) (oneLine_quoted (p.filename_ok f hf).1)
    rw [p.disposition_some hf]
    exact OneLine.append (by decide) ((hname.append (hfile.cons (by decide))).cons (by decide))

theorem disposition_ends : ∃ t, p.disposition = 102 :: (t ++ [quote]) := by
  cases hf : p.filename with
  | none =>
    refine ⟨bytes "orm-data" ++ semicolon :: (bytes " name=" ++ quote :: p.name), ?_⟩
    rw [p.disposition_none hf, nameParam, quoted]
    simp [bytes]
  | some f =>
    refine ⟨bytes "orm-data" ++ semicolon :: (p.nameParam ++ semicolon :: (bytes " filename=" ++ quote :: f)), ?_⟩
    rw [p.disposition_some hf, quoted]
    simp [bytes]

theorem trim_disposition : trim (SP :: p.disposition) = p.disposition := by
  obtain ⟨t, ht⟩ := p.disposition_ends
  rw [ht, trim, trimWith_cons (by decide)]
  exact trimWith_between (by decide) (by decide) t

theorem oneLine_dispositionLine : OneLine p.dispositionLine :=
  OneLine.append (by decide) ((p.oneLine_disposition.cons (by decide)).cons (by decide))

theorem headerLine_disposition (h : p.Unsplit) (part : MultipartPart) :
    (headerLine part p.dispositionLine).name = p.name ∧
      (headerLine part p.dispositionLine).filename = p.filename.getD part.filename ∧
      (headerLine part p.dispositionLine).contentType = part.contentType := by
  have hkey : (trim (bytes "Content-Disposition")).map toLower = bytes "content-disposition" := by decide
  rw [headerLine, dispositionLine, cut_append_sep (by decide)]
  simp only [hkey, p.trim_disposition, p.parseDispositionParams_disposition h, ↓reduceIte, and_self]

theorem headerLines_read (h : p.Unsplit) :
    (p.headerLines.foldl headerLine {}).name = p.name ∧
      (p.headerLines.foldl headerLine {}).filename = p.filename.getD [] ∧
      (p.headerLines.foldl headerLine {}).contentType = p.contentType := by
  obtain ⟨-, hfile, htype⟩ := headerLines_fold p.before {}
  obtain ⟨hname', hfile', htype'⟩ := p.headerLine_disposition h ((p.before.map PartHeader.line).foldl headerLine {})
  obtain ⟨hname'', hfile'', htype''⟩ := headerLines_fold p.after
    (headerLine ((p.before.map PartHeader.line).foldl headerLine {}) p.dispositionLine)
  rw [headerLines, List.foldl_append, List.foldl_cons]
  refine ⟨hname''.trans hname', ?_, ?_⟩
  · rw [hfile'', hfile', hfile]
  · rw [htype'', htype', htype, contentType, ← typeAfter_eq p.oneType]
    exact (List.foldl_append ..).symm

theorem oneLine_headerLines : ∀ l ∈ p.headerLines, OneLine l ∧ l ≠ [] := by
  intro l hl
  rw [headerLines, List.mem_append, List.mem_cons] at hl
  rcases hl with hl | rfl | hl
  · obtain ⟨h, -, rfl⟩ := List.mem_map.1 hl
    exact ⟨h.oneLine_line, h.line_ne⟩
  · exact ⟨p.oneLine_dispositionLine, List.append_ne_nil_of_left_ne_nil (by decide) _⟩
  · obtain ⟨h, -, rfl⟩ := List.mem_map.1 hl
    exact ⟨h.oneLine_line, h.line_ne⟩

theorem headerLines_cons : ∃ l ls, p.headerLines = l :: ls := by
  rw [headerLines]
  cases p.before with
  | nil => exact ⟨_, _, rfl⟩
  | cons h hs => exact ⟨_, _, rfl⟩

end FormPart

section Block

theorem lines_intercalate (l : Bytes) (ls : List Bytes) (h : ∀ m ∈ l :: ls, OneLine m) :
    lines (crlf.intercalate (l :: ls)) = l :: ls := by
  induction ls generalizing l with
  | nil =>
    rw [List.intercalate_singleton]
    exact lines_of_not_mem (h l List.mem_cons_self).1
  | cons m ls ih =>
    rw [List.intercalate_cons_cons, List.append_assoc, lines_append, lines_of_not_mem (h l List.mem_cons_self).1,
      ih m (fun n hn => h n (List.mem_cons_of_mem _ hn))]
    rfl

theorem cutAt_emptyLine_line (h : CR ∉ l) (hs : s.head? ≠ some CR) :
    cutAt (crlf ++ crlf) (l ++ (crlf ++ s)) =
      (cutAt (crlf ++ crlf) s).map fun r => (l ++ (crlf ++ r.1), r.2) := by
  have hcr : ¬ crlf ++ crlf <+: CR :: LF :: s := by
    rintro ⟨t, ht⟩
    injection ht with _ ht
    injection ht with _ ht
    rw [← ht] at hs
    exact hs rfl
  have hlf : ¬ crlf ++ crlf <+: LF :: s := by
    rintro ⟨t, ht⟩
    exact absurd (List.cons.inj ht).1 (by decide)
  have hskip : cutAt (crlf ++ crlf) (l ++ (crlf ++ s)) =
      (cutAt (crlf ++ crlf) (crlf ++ s)).map fun r => (l ++ r.1, r.2) := cutAt_skip h (crlf ++ s)
  have hone : cutAt (crlf ++ crlf) (crlf ++ s) =
      ((cutAt (crlf ++ crlf) s).map fun r => (LF :: r.1, r.2)).map fun r => (CR :: r.1, r.2) := by
    rw [← cutAt_cons_of_not hlf, ← cutAt_cons_of_not hcr]
    rfl
  rw [hskip, hone, Option.map_map, Option.map_map]
  rfl

theorem cutAt_intercalate (l : Bytes) (ls : List Bytes) (h : ∀ m ∈ l :: ls, OneLine m ∧ m ≠ []) (data : Bytes) :
    cutAt (crlf ++ crlf) (crlf.intercalate (l :: ls) ++ (crlf ++ (crlf ++ data))) =
      some (crlf.intercalate (l :: ls), data) := by
  induction ls generalizing l with
  | nil =>
    have hskip : cutAt (crlf ++ crlf) (l ++ (crlf ++ crlf ++ data)) =
        (cutAt (crlf ++ crlf) (crlf ++ crlf ++ data)).map fun r => (l ++ r.1, r.2) :=
      cutAt_skip (h l List.mem_cons_self).1.1 _
    rw [List.intercalate_singleton, ← List.append_assoc crlf, hskip, cutAt_append, Option.map_some, List.append_nil]
  | cons m ls ih =>
    obtain ⟨hline, hne⟩ := h m (List.mem_cons_of_mem _ List.mem_cons_self)
    have hhead : (crlf.intercalate (m :: ls) ++ (crlf ++ (crlf ++ data))).head? ≠ some CR := by
      cases m with
      | nil => exact absurd rfl hne
      | cons b m =>
        have hb : b ≠ CR := fun heq => hline.1 (heq ▸ List.mem_cons_self)
        cases ls with
        | nil => simpa using hb
        | cons n ls => simpa using hb
    rw [List.intercalate_cons_cons, List.append_assoc, List.append_assoc,
      cutAt_emptyLine_line (h l List.mem_cons_self).1.1 hhead, ih m (fun n hn => h n (List.mem_cons_of_mem _ hn))]
    rw [Option.map_some, List.append_assoc]

end Block

namespace FormPart
variable (p : FormPart)

theorem lines_block : lines p.block = p.headerLines := by
  obtain ⟨l, ls, hls⟩ := p.headerLines_cons
  rw [block, hls]
  exact lines_intercalate l ls fun m hm => (p.oneLine_headerLines m (hls ▸ hm)).1

theorem cutAt_block (data : Bytes) :
    cutAt (crlf ++ crlf) (p.block ++ (crlf ++ (crlf ++ data))) = some (p.block, data) := by
  obtain ⟨l, ls, hls⟩ := p.headerLines_cons
  rw [block, hls]
  exact cutAt_intercalate l ls (fun m hm => p.oneLine_headerLines m (hls ▸ hm)) data

theorem block_no_emptyLine : ¬ crlf ++ crlf <:+: p.block := cutAt_before (by decide) (p.cutAt_block [])

def asPart : MultipartPart := { parsePartHeaders p.block {} with data := p.data }

theorem readPart_block : readPart (p.block ++ (crlf ++ (crlf ++ p.data))) = some p.asPart := by
  rw [readPart, p.cutAt_block]
  rfl

theorem asPart_fields (h : p.Unsplit) : p.asPart.fields = p.fields := by
  obtain ⟨hname, hfile, htype⟩ := p.headerLines_read h
  rw [asPart, parsePartHeaders, p.lines_block, MultipartPart.fields, fields, ← hname, ← hfile, ← htype]

end FormPart

end Hical.Multipart
