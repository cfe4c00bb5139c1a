import Hical.Multipart.Form
import Mathlib.Data.List.DropRight

namespace Hical.Multipart
open Search

/-- The characters of a boundary; the apostrophe is number 39. -/
def boundaryChars : Bytes :=
  bytes "0123456789abcdefghijklmnopqrstuvwxyzABCDEFGHIJKLMNOPQRSTUVWXYZ()+_,-./:=? " ++ [39]

/-- A form to be transmitted, with the way its Content-Type header is written: other parameters in front
of and behind the boundary, and whether the boundary stands in quotes. -/
structure Form where
  boundary : Bytes
  quotes : Bool
  before : List Bytes
  after : List Bytes
  parts : List FormPart
  legal : ∀ b ∈ boundary, b ∈ boundaryChars
  size : boundary.length ≤ 70
  last : ∃ pre z, boundary = pre ++ [z] ∧ z ≠ SP
  few : parts.length ≤ 256
  delimited : ∀ p ∈ parts, ¬ crlf ++ (dashes ++ boundary) <:+: p.data

/-- Another parameter of the Content-Type. -/
def param (t : Bytes) : Bytes := semicolon :: SP :: t

namespace Form
variable (f : Form)

def dashed : Bytes := dashes ++ f.boundary

def value : Bytes := if f.quotes then quoted f.boundary else f.boundary

def contentType : Bytes :=
  bytes "multipart/form-data" ++ f.before.flatMap param ++
    (param (bytes "boundary=" ++ (f.value ++ f.after.flatMap param)))

def request (req : Request) : Request :=
  { req with
    headers := req.headers.set (bytes "Content-Type") f.contentType,
    body := encode f.dashed f.parts }

/-- The parser returns the parts that were sent, in order. -/
def RoundTrips (req : Request) : Prop :=
  ∃ parts, parse (f.request req) = some parts ∧ parts.map MultipartPart.fields = f.parts.map FormPart.fields

/-- The boundary without the spaces in front of it. -/
def bare : Bytes := f.boundary.dropWhile isSpace

theorem isSpace_boundary (h : b ∈ f.boundary) (hb : isSpace b = true) : b = SP := by
  have hall : (boundaryChars.all fun b => !isSpace b || b == SP) = true := by decide
  have hc := List.all_eq_true.1 hall b (f.legal b h)
  rw [hb] at hc
  exact beq_iff_eq.1 hc

theorem not_mem_boundary (hc : c ∉ boundaryChars) : c ∉ f.boundary := fun h => hc (f.legal c h)

theorem oneLine_dashed : OneLine f.dashed :=
  OneLine.append (by decide) ⟨f.not_mem_boundary (by decide), f.not_mem_boundary (by decide)⟩

theorem dropWhile_concat {P : UInt8 → Bool} (hz : P z = false) (s : Bytes) :
    (s ++ [z]).dropWhile P = s.dropWhile P ++ [z] := by
  induction s with
  | nil => exact List.dropWhile_cons_of_neg (by simp [hz])
  | cons b s ih =>
    cases hb : P b with
    | false => simp [hb]
    | true => simp [hb, ih]

theorem boundary_last : ∃ pre z, f.boundary = pre ++ [z] ∧ isSpace z = false := by
  obtain ⟨pre, z, heq, hz⟩ := f.last
  refine ⟨pre, z, heq, ?_⟩
  cases hs : isSpace z with
  | false => rfl
  | true => exact absurd (f.isSpace_boundary (heq ▸ by simp) hs) hz

theorem bare_subset : f.bare ⊆ f.boundary := (List.dropWhile_suffix isSpace).subset

theorem bare_ne : f.bare ≠ [] := by
  obtain ⟨pre, z, heq, hz⟩ := f.boundary_last
  rw [bare, heq, dropWhile_concat hz]
  exact List.append_ne_nil_of_right_ne_nil _ (List.cons_ne_nil _ _)

theorem trim_boundary : trim f.boundary = f.bare := by
  obtain ⟨pre, z, heq, hz⟩ := f.boundary_last
  rw [bare, heq, dropWhile_concat hz]
  exact trimWith_append hz pre []

theorem trim_bare : trim f.bare = f.bare := by
  obtain ⟨pre, z, heq, hz⟩ := f.boundary_last
  have hidem : (pre.dropWhile isSpace).dropWhile isSpace = pre.dropWhile isSpace := List.dropWhile_idempotent ..
  have htrim := trimWith_append hz (pre.dropWhile isSpace) []
  rw [hidem] at htrim
  rw [bare, heq, dropWhile_concat hz]
  exact htrim

theorem trim_append (hc : isSpace c = false) (x y : Bytes) :
    ∃ rest, trim (x ++ c :: y) = x.dropWhile isSpace ++ c :: rest := ⟨_, trimWith_append hc x y⟩

theorem extractBoundary_eq (h : cutAt (bytes "boundary=") s = some (pre, rest)) :
    extractBoundary s =
      if 70 < (trim (cut semicolon (unquote (trim rest))).1).length then []
      else trim (cut semicolon (unquote (trim rest))).1 := by
  rw [extractBoundary, h]

theorem unquote_of_head (h : s.head? ≠ some quote) : unquote s = s := if_neg fun hq => h hq.2.1

theorem head_bare (s : Bytes) : (f.bare ++ s).head? ≠ some quote := by
  have hne := f.bare_ne
  have hquote : quote ∉ f.bare := fun h => f.not_mem_boundary (by decide) (f.bare_subset h)
  cases hb : f.bare with
  | nil => exact absurd hb hne
  | cons b t =>
    rw [hb] at hquote
    intro h
    injection h with h
    exact hquote (h ▸ List.mem_cons_self)

theorem semicolon_bare : semicolon ∉ f.bare := fun h => f.not_mem_boundary (by decide) (f.bare_subset h)

theorem value_read (h : f.quotes = true → f.after = []) :
    trim (cut semicolon (unquote (trim (f.value ++ f.after.flatMap param)))).1 = f.bare := by
  cases hq : f.quotes with
  | true =>
    have hvalue : f.value = quoted f.boundary := if_pos hq
    rw [hvalue, h hq, List.flatMap_nil, List.append_nil, trim_quoted, unquote_quoted,
      cut_eq_self (f.not_mem_boundary (by decide))]
    exact f.trim_boundary
  | false =>
    have hvalue : f.value = f.boundary := if_neg (by rw [hq]; decide)
    rw [hvalue]
    cases hafter : f.after with
    | nil =>
      have hhead := f.head_bare []
      rw [List.append_nil] at hhead
      rw [List.flatMap_nil, List.append_nil, f.trim_boundary, unquote_of_head hhead, cut_eq_self f.semicolon_bare]
      exact f.trim_bare
    | cons t ts =>
      obtain ⟨rest, htrim⟩ := trim_append (c := semicolon) (by decide) f.boundary (SP :: t ++ ts.flatMap param)
      rw [List.flatMap_cons, param, List.cons_append, htrim]
      rw [← bare, unquote_of_head (f.head_bare _), cut_append_sep f.semicolon_bare]
      exact f.trim_bare

theorem value_misread (hq : f.quotes = true) (h : f.after ≠ []) :
    trim (cut semicolon (unquote (trim (f.value ++ f.after.flatMap param)))).1 = f.bare ++ [quote] ∨
    trim (cut semicolon (unquote (trim (f.value ++ f.after.flatMap param)))).1 = quoted f.boundary := by
  have hvalue : f.value = quoted f.boundary := if_pos hq
  have hsemi : semicolon ∉ f.boundary := f.not_mem_boundary (by decide)
  cases hafter : f.after with
  | nil => exact absurd hafter h
  | cons t ts =>
    obtain ⟨rest, htrim⟩ := trim_append (c := semicolon) (by decide) (quoted f.boundary)
      (SP :: t ++ ts.flatMap param)
    have hopen : (quoted f.boundary).dropWhile isSpace = quoted f.boundary := List.dropWhile_cons_of_neg (by decide)
    rw [hvalue, List.flatMap_cons, param, List.cons_append, htrim, hopen, unquote]
    split
    · next hends =>
      have hne : rest ≠ [] := by
        rintro rfl
        have hlast := hends.2.2
        rw [List.getLast?_concat] at hlast
        cases hlast
      have hdrop : (quoted f.boundary ++ semicolon :: rest).tail.dropLast =
          f.boundary ++ [quote] ++ semicolon :: rest.dropLast := by
        rw [quoted, List.cons_append, List.tail_cons, List.dropLast_append_of_ne_nil (List.cons_ne_nil _ _),
          List.dropLast_cons_of_ne_nil hne]
      have hnot : semicolon ∉ f.boundary ++ [quote] := by
        rw [List.mem_append, not_or]
        exact ⟨hsemi, by decide⟩
      left
      rw [hdrop, cut_append_sep hnot]
      exact trimWith_append (by decide) _ _
    · right
      rw [cut_append_sep (not_mem_quoted hsemi (by decide))]
      exact trim_quoted _

theorem infix_params {ts : List Bytes} (h : ∀ t ∈ ts, ¬ bytes "boundary=" <:+: t) (hx : ¬ bytes "boundary=" <:+: x) :
    ¬ bytes "boundary=" <:+: x ++ ts.flatMap param := by
  induction ts generalizing x with
  | nil =>
    rw [List.flatMap_nil, List.append_nil]
    exact hx
  | cons t ts ih =>
    have hsp : ¬ bytes "boundary=" <:+: SP :: t := by
      rw [← List.nil_append (SP :: t), infix_barrier (by decide) (by decide), not_or]
      exact ⟨by decide, h t List.mem_cons_self⟩
    have hparam : ¬ bytes "boundary=" <:+: x ++ param t := by
      rw [param, infix_barrier (by decide) (by decide), not_or]
      exact ⟨hx, hsp⟩
    rw [List.flatMap_cons, ← List.append_assoc]
    exact ih (fun t ht => h t (List.mem_cons_of_mem _ ht)) hparam

/-- The boundary is found when no parameter in front of it looks like one. -/
theorem cutAt_contentType (h : ∀ t ∈ f.before, ¬ bytes "boundary=" <:+: t) :
    ∃ pre, cutAt (bytes "boundary=") f.contentType = some (pre, f.value ++ f.after.flatMap param) := by
  have hfront := infix_params h (x := bytes "multipart/form-data") (by decide)
  have hsp : cutAt (bytes "boundary=") (SP :: (bytes "boundary=" ++ (f.value ++ f.after.flatMap param))) =
      some ([SP], f.value ++ f.after.flatMap param) := by
    rw [cutAt_cons_of_not (not_prefix_barrier (by decide) (by decide)), cutAt_append]
    rfl
  rw [contentType, param, cutAt_barrier (by decide) (by decide) hfront, hsp]
  exact ⟨_, rfl⟩

theorem extractBoundary_read (h : ∀ t ∈ f.before, ¬ bytes "boundary=" <:+: t) (hq : f.quotes = true → f.after = []) :
    extractBoundary f.contentType = f.bare := by
  obtain ⟨pre, hcut⟩ := f.cutAt_contentType h
  have hlen : f.bare.length ≤ 70 := (List.dropWhile_suffix isSpace).length_le.trans f.size
  rw [extractBoundary_eq hcut, f.value_read hq, if_neg (by omega)]

theorem extractBoundary_misread (h : ∀ t ∈ f.before, ¬ bytes "boundary=" <:+: t) (hq : f.quotes = true)
    (hafter : f.after ≠ []) :
    extractBoundary f.contentType = [] ∨ extractBoundary f.contentType = f.bare ++ [quote] ∨
      extractBoundary f.contentType = quoted f.boundary := by
  obtain ⟨pre, hcut⟩ := f.cutAt_contentType h
  rw [extractBoundary_eq hcut]
  split
  · exact .inl rfl
  · exact .inr (f.value_misread hq hafter)

theorem parse_request (req : Request) :
    parse (f.request req) =
      if extractBoundary f.contentType = [] then none
      else parseBody (dashes ++ extractBoundary f.contentType) (encode f.dashed f.parts) := by
  have hct : Multipart.contentType (f.request req) = f.contentType := Fields.find_set_self _ _ _
  have htype : bytes "multipart/form-data" <:+: f.contentType.map toLower := by
    have hlower : (bytes "multipart/form-data").map toLower = bytes "multipart/form-data" := by decide
    rw [contentType, List.append_assoc, List.map_append, hlower]
    exact (List.prefix_append _ _).isInfix
  rw [parse, delimiter, hct, if_neg (not_not_intro htype)]
  rfl

end Form

section Sent
variable {d x y : Bytes} (hd : OneLine d) (hne : d ≠ [])
include hd hne

theorem cutAt_crlf (hx : ¬ d <:+: x) (y : Bytes) :
    cutAt d (x ++ (crlf ++ y)) = (cutAt d y).map fun r => (x ++ (crlf ++ r.1), r.2) := by
  have hlf : cutAt d (LF :: y) = (cutAt d y).map fun r => (LF :: r.1, r.2) :=
    cutAt_cons_of_not (not_prefix_barrier hd.2 hne)
  have hcr : cutAt d (x ++ CR :: LF :: y) = (cutAt d (LF :: y)).map fun r => (x ++ CR :: r.1, r.2) :=
    cutAt_barrier hd.1 hne hx (LF :: y)
  rw [hlf, Option.map_map] at hcr
  exact hcr

theorem infix_crlf : d <:+: x ++ (crlf ++ y) ↔ d <:+: x ∨ d <:+: y := by
  have hlf : d <:+: LF :: y ↔ d <:+: y := by
    rw [← List.nil_append (LF :: y), infix_barrier hd.2 hne, List.infix_nil]
    exact or_iff_right hne
  have hcr : d <:+: x ++ CR :: LF :: y ↔ d <:+: x ∨ d <:+: LF :: y := infix_barrier hd.1 hne
  rw [hlf] at hcr
  exact hcr

end Sent

def behind (d : Bytes) : List FormPart → Bytes
  | [] => dashes ++ crlf
  | p :: ps => crlf ++ (p.block ++ (crlf ++ (crlf ++ (p.data ++ (crlf ++ encode d ps)))))

theorem encode_eq (d : Bytes) (ps : List FormPart) : encode d ps = d ++ behind d ps := by
  cases ps <;> rfl

theorem behind_nil (d : Bytes) : ¬ crlf <+: behind d [] := by
  rw [behind]
  decide

theorem behind_cons (d : Bytes) (p : FormPart) (ps : List FormPart) : crlf <+: behind d (p :: ps) :=
  List.prefix_append crlf _

theorem part_assoc (b data rest : Bytes) :
    b ++ (crlf ++ (crlf ++ (data ++ (crlf ++ rest)))) = b ++ (crlf ++ (crlf ++ data)) ++ (crlf ++ rest) := by
  simp only [List.append_assoc]

theorem infix_part (hd : OneLine d) (hne : d ≠ []) (p : FormPart) :
    d <:+: p.block ++ (crlf ++ (crlf ++ p.data)) ↔ d <:+: p.block ∨ d <:+: p.data := by
  rw [infix_crlf hd hne, ← List.nil_append (crlf ++ p.data), infix_crlf hd hne, List.infix_nil]
  simp only [hne, false_or]

theorem sent_ne (p : FormPart) (rest : Bytes) : p.block ++ (crlf ++ (crlf ++ (p.data ++ (crlf ++ rest)))) ≠ [] :=
  List.append_ne_nil_of_right_ne_nil _ (List.cons_ne_nil _ _)

theorem cutAt_sent (hd : OneLine d) (hne : d ≠ []) (p : FormPart) (ps : List FormPart)
    (h : ¬ d <:+: p.block ∧ ¬ d <:+: p.data) :
    cutAt d (p.block ++ (crlf ++ (crlf ++ (p.data ++ (crlf ++ encode d ps))))) =
      some (p.block ++ (crlf ++ (crlf ++ p.data)) ++ crlf, behind d ps) := by
  have hno : ¬ d <:+: p.block ++ (crlf ++ (crlf ++ p.data)) := by
    rw [infix_part hd hne, not_or]
    exact h
  rw [part_assoc, cutAt_crlf hd hne hno, encode_eq, cutAt_append, Option.map_some, List.append_nil]

theorem partsLoop_sent (hd : OneLine d) (hne : d ≠ []) (p : FormPart) (ps : List FormPart) (room : Nat)
    (h : ¬ d <:+: p.block ∧ ¬ d <:+: p.data) :
    partsLoop d (room + 1) (p.block ++ (crlf ++ (crlf ++ (p.data ++ (crlf ++ encode d ps))))) =
      if crlf <+: behind d ps then (partsLoop d room ((behind d ps).drop 2)).map (p.asPart :: ·)
      else some [p.asPart] := by
  have hread : readPart (stripLineEnd (p.block ++ (crlf ++ (crlf ++ p.data)) ++ crlf)) = some p.asPart := by
    rw [stripLineEnd_append]
    exact p.readPart_block
  exact partsLoop_part (sent_ne p _) (cutAt_sent hd hne p ps h) hread

theorem partsLoop_encode (hd : OneLine d) (hne : d ≠ []) (p : FormPart) (ps : List FormPart)
    (h : ∀ q ∈ p :: ps, ¬ d <:+: q.block ∧ ¬ d <:+: q.data) (hroom : ps.length < room) :
    partsLoop d room (p.block ++ (crlf ++ (crlf ++ (p.data ++ (crlf ++ encode d ps))))) =
      some ((p :: ps).map FormPart.asPart) := by
  induction ps generalizing p room with
  | nil =>
    cases room with
    | zero => cases hroom
    | succ room =>
      rw [partsLoop_sent hd hne p [] room (h p List.mem_cons_self), if_neg (behind_nil d)]
      rfl
  | cons q ps ih =>
    cases room with
    | zero => cases hroom
    | succ room =>
      have hmore := ih q (fun r hr => h r (List.mem_cons_of_mem _ hr)) (Nat.lt_of_succ_lt_succ hroom)
      have hdrop : (behind d (q :: ps)).drop 2 =
          q.block ++ (crlf ++ (crlf ++ (q.data ++ (crlf ++ encode d ps)))) := rfl
      rw [partsLoop_sent hd hne p (q :: ps) room (h p List.mem_cons_self), if_pos (behind_cons d q ps), hdrop,
        hmore]
      rfl

theorem parseBody_encode (hd : OneLine d) (hne : d ≠ []) (ps : List FormPart)
    (h : ∀ q ∈ ps, ¬ d <:+: q.block ∧ ¬ d <:+: q.data) (hfew : ps.length ≤ 256) :
    parseBody d (encode d ps) = some (ps.map FormPart.asPart) := by
  rw [parseBody, encode_eq, cutAt_append]
  dsimp only
  cases ps with
  | nil => rfl
  | cons p ps =>
    rw [if_pos (behind_cons d p ps)]
    exact partsLoop_encode hd hne p ps h hfew

end Hical.Multipart
