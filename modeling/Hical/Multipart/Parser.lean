import Hical.Lib.Search
import Hical.Members
import Hical.Message

namespace Hical.Multipart
open Search

/-- `MultipartPart`; the keys of `headers` are in lower case. -/
structure MultipartPart where
  headers : List (Bytes × Bytes) := []
  name : Bytes := []
  filename : Bytes := []
  contentType : Bytes := []
  data : Bytes := []
  deriving DecidableEq, Repr

def equalSign : UInt8 := 61

def quote : UInt8 := 34

/-- The dashes in front of a boundary, and behind the last one. -/
def dashes : Bytes := bytes "--"

/-- `std::isspace` of the C locale. -/
def isSpace (c : UInt8) : Bool := c == SP || (9 ≤ c && c ≤ 13)

def trim (s : Bytes) : Bytes := trimWith isSpace s

def unquote (s : Bytes) : Bytes :=
  if 2 ≤ s.length ∧ s.head? = some quote ∧ s.getLast? = some quote then s.tail.dropLast else s

def extractBoundary (contentType : Bytes) : Bytes :=
  match cutAt (bytes "boundary=") contentType with
  | none => []
  | some (_, rest) =>
    let boundary := trim (cut semicolon (unquote (trim rest))).1
    if 70 < boundary.length then [] else boundary

/-- One turn of the loop of `parseDispositionParams`. -/
def dispositionParam (part : MultipartPart) (param : Bytes) : MultipartPart :=
  match cut equalSign (trim param) with
  | (_, none) => part
  | (key, some val) =>
    let val := unquote (trim val)
    if trim key = bytes "name" then { part with name := val }
    else if trim key = bytes "filename" then { part with filename := val }
    else part

def parseDispositionParams (disposition : Bytes) (part : MultipartPart) : MultipartPart :=
  match cut semicolon disposition with
  | (_, none) => part
  | (_, some params) => (params.splitOn semicolon).foldl dispositionParam part

/-- One turn of the loop of `parsePartHeaders`; an empty line has no colon. -/
def headerLine (part : MultipartPart) (line : Bytes) : MultipartPart :=
  match cut colon line with
  | (_, none) => part
  | (key, some val) =>
    let key := (trim key).map toLower
    let val := trim val
    let part := { part with headers := setMember key val part.headers }
    if key = bytes "content-disposition" then parseDispositionParams val part
    else if key = bytes "content-type" then { part with contentType := val }
    else part

def parsePartHeaders (headerBlock : Bytes) (part : MultipartPart) : MultipartPart :=
  (lines headerBlock).foldl headerLine part

def hMaxMultipartParts : Nat := 256

def stripLineEnd (partData : Bytes) : Bytes :=
  if crlf <:+ partData then partData.take (partData.length - 2) else partData

def readPart (partData : Bytes) : Option MultipartPart :=
  (cutAt (crlf ++ crlf) partData).map fun r => { parsePartHeaders r.1 {} with data := r.2 }

/-- The loop of `parse` over what is left behind a delimiter line; `room` more parts fit. -/
def partsLoop (delimiter : Bytes) (room : Nat) (data : Bytes) : Option (List MultipartPart) :=
  if data = [] then some []
  else
    match cutAt delimiter data with
    | none => some []
    | some (partData, rest) =>
      match readPart (stripLineEnd partData) with
      | none => none
      | some part =>
        match room with
        | 0 => none
        | room + 1 =>
          if dashes <+: rest then some [part]
          else if crlf <+: rest then (partsLoop delimiter room (rest.drop 2)).map (part :: ·)
          else some [part]
termination_by structural room

def parseBody (delimiter body : Bytes) : Option (List MultipartPart) :=
  match cutAt delimiter body with
  | none => none
  | some (_, rest) =>
    if crlf <+: rest then partsLoop delimiter hMaxMultipartParts (rest.drop 2)
    else if dashes <+: rest then some []
    else none

def contentType (req : Request) : Bytes := req.headers.find (bytes "Content-Type")

/-- What `parse` searches the body for. -/
def delimiter (req : Request) : Bytes := dashes ++ extractBoundary (contentType req)

def parse (req : Request) : Option (List MultipartPart) :=
  if ¬ bytes "multipart/form-data" <:+: (contentType req).map toLower then none
  else if extractBoundary (contentType req) = [] then none
  else parseBody (delimiter req) req.body

theorem stripLineEnd_append (piece : Bytes) : stripLineEnd (piece ++ crlf) = piece := by
  rw [stripLineEnd, if_pos (List.suffix_append piece crlf), List.length_append]
  exact List.take_left

theorem readPart_eq_some (h : readPart piece = some part) :
    ∃ block data, cutAt (crlf ++ crlf) piece = some (block, data) ∧
      part = { parsePartHeaders block {} with data := data } := by
  obtain ⟨⟨block, data⟩, hcut, heq⟩ := Option.map_eq_some_iff.1 h
  exact ⟨block, data, hcut, heq.symm⟩

section Loop
variable {d data content rest : Bytes} {room : Nat} {part : MultipartPart} {parts : List MultipartPart}

theorem partsLoop_nil (d : Bytes) (room : Nat) : partsLoop d room [] = some [] := by
  rw [partsLoop, if_pos rfl]

theorem partsLoop_none (h : cutAt d data = none) : partsLoop d room data = some [] := by
  rw [partsLoop, h, ite_self]

theorem partsLoop_unread (hd : data ≠ []) (h : cutAt d data = some (content, rest))
    (hread : readPart (stripLineEnd content) = none) : partsLoop d room data = none := by
  rw [partsLoop, if_neg hd, h]
  simp only [hread]

theorem partsLoop_full (hd : data ≠ []) (h : cutAt d data = some (content, rest)) : partsLoop d 0 data = none := by
  rw [partsLoop, if_neg hd, h]
  cases hread : readPart (stripLineEnd content) with
  | none => simp only [hread]
  | some part => simp only [hread]

theorem partsLoop_part (hd : data ≠ []) (h : cutAt d data = some (content, rest))
    (hread : readPart (stripLineEnd content) = some part) :
    partsLoop d (room + 1) data =
      if crlf <+: rest then (partsLoop d room (rest.drop 2)).map (part :: ·) else some [part] := by
  rw [partsLoop, if_neg hd, h]
  simp only [hread]
  by_cases hdash : dashes <+: rest
  · have hno : ¬ crlf <+: rest := by
      intro hcrlf
      obtain ⟨t, ht⟩ := hdash
      obtain ⟨u, hu⟩ := hcrlf
      rw [← ht] at hu
      exact absurd (List.cons.inj hu).1 (by decide)
    rw [if_pos hdash, if_neg hno]
  · rw [if_neg hdash]

theorem partsLoop_cases (h : partsLoop d room data = some parts) :
    (parts = [] ∧ (data = [] ∨ cutAt d data = none)) ∨
    ∃ content rest part ps room', data ≠ [] ∧ cutAt d data = some (content, rest) ∧
      readPart (stripLineEnd content) = some part ∧ room = room' + 1 ∧ parts = part :: ps ∧
      (crlf <+: rest ∧ partsLoop d room' (rest.drop 2) = some ps ∨ ¬ crlf <+: rest ∧ ps = []) := by
  by_cases hd : data = []
  · subst hd
    rw [partsLoop_nil] at h
    cases h
    exact .inl ⟨rfl, .inl rfl⟩
  cases hcut : cutAt d data with
  | none =>
    rw [partsLoop_none hcut] at h
    cases h
    exact .inl ⟨rfl, .inr rfl⟩
  | some r =>
    obtain ⟨content, rest⟩ := r
    cases hread : readPart (stripLineEnd content) with
    | none =>
      rw [partsLoop_unread hd hcut hread] at h
      cases h
    | some part =>
      cases room with
      | zero =>
        rw [partsLoop_full hd hcut] at h
        cases h
      | succ room' =>
        rw [partsLoop_part hd hcut hread] at h
        right
        split at h
        · next hcrlf =>
          obtain ⟨ps, hps, heq⟩ := Option.map_eq_some_iff.1 h
          exact ⟨content, rest, part, ps, room', hd, rfl, hread, rfl, heq.symm, .inl ⟨hcrlf, hps⟩⟩
        · next hcrlf =>
          cases h
          exact ⟨content, rest, part, [], room', hd, rfl, hread, rfl, rfl, .inr ⟨hcrlf, rfl⟩⟩

theorem partsLoop_length (h : partsLoop d room data = some parts) : parts.length ≤ room := by
  induction room generalizing data parts with
  | zero =>
    rcases partsLoop_cases h with ⟨rfl, -⟩ | ⟨_, _, _, _, _, -, -, -, hroom, -⟩
    · exact Nat.le_refl 0
    · cases hroom
  | succ room ih =>
    rcases partsLoop_cases h with ⟨rfl, -⟩ | ⟨_, rest, part, ps, room', -, -, -, hroom, rfl, hmore⟩
    · exact Nat.zero_le _
    · cases hroom
      rcases hmore with ⟨-, hps⟩ | ⟨-, rfl⟩
      · exact Nat.succ_le_succ (ih hps)
      · exact Nat.succ_le_succ (Nat.zero_le _)

end Loop

section Clean
variable {s piece : Bytes} {part : MultipartPart}

def MultipartPart.Clean (part : MultipartPart) : Prop := semicolon ∉ part.name ∧ semicolon ∉ part.filename

theorem trimWith_subset (P : UInt8 → Bool) (s : Bytes) : trimWith P s ⊆ s := by
  intro b hb
  have hdrop : ∀ t : Bytes, t.dropWhile P ⊆ t := fun t => (List.dropWhile_suffix P).subset
  exact hdrop s (List.mem_reverse.1 (hdrop _ (List.mem_reverse.1 hb)))

theorem unquote_subset (s : Bytes) : unquote s ⊆ s := by
  rw [unquote]
  split
  · exact List.Subset.trans (List.dropLast_subset _) (List.tail_subset s)
  · exact List.Subset.refl s

theorem not_mem_piece (c : UInt8) (s : Bytes) : ∀ piece ∈ s.splitOn c, c ∉ piece := by
  induction s with
  | nil => simp
  | cons b s ih =>
    rw [List.splitOn_cons_eq_if_modifyHead]
    split
    · intro piece hp
      rcases List.mem_cons.1 hp with rfl | hp
      · exact List.not_mem_nil
      · exact ih piece hp
    · next hb =>
      have hne : c ≠ b := fun h => hb (beq_iff_eq.2 h.symm)
      cases hsplit : s.splitOn c with
      | nil => exact absurd hsplit (List.splitOn_ne_nil c s)
      | cons t ts =>
        rw [hsplit] at ih
        intro piece hp
        rcases List.mem_cons.1 hp with rfl | hp
        · exact List.not_mem_cons_of_ne_of_not_mem hne (ih t List.mem_cons_self)
        · exact ih piece (List.mem_cons_of_mem _ hp)

theorem dispositionParam_clean (h : part.Clean) (hp : semicolon ∉ param) : (dispositionParam part param).Clean := by
  rw [dispositionParam]
  cases hcut : cut equalSign (trim param) with
  | mk key val =>
    cases val with
    | none => exact h
    | some val =>
      have hval : semicolon ∉ unquote (trim val) := by
        intro hm
        have hin : semicolon ∈ trim param := by
          rw [(cut_some hcut).1]
          exact List.mem_append_right _ (List.mem_cons_of_mem _ (trimWith_subset _ _ (unquote_subset _ hm)))
        exact hp (trimWith_subset _ _ hin)
      dsimp only
      split
      · exact ⟨hval, h.2⟩
      · split
        · exact ⟨h.1, hval⟩
        · exact h

theorem parseDispositionParams_clean (h : part.Clean) (s : Bytes) : (parseDispositionParams s part).Clean := by
  rw [parseDispositionParams]
  split
  · exact h
  · next params _ =>
    apply List.foldlRecOn _ _ h
    intro part hpart param hparam
    exact dispositionParam_clean hpart (not_mem_piece semicolon params param hparam)

theorem headerLine_clean (h : part.Clean) (line : Bytes) : (headerLine part line).Clean := by
  rw [headerLine]
  split
  · exact h
  · dsimp only
    split
    · apply parseDispositionParams_clean
      exact h
    · split
      · exact h
      · exact h

theorem parsePartHeaders_clean (block : Bytes) : (parsePartHeaders block {}).Clean := by
  apply List.foldlRecOn _ _ ⟨List.not_mem_nil, List.not_mem_nil⟩
  intro part hpart line _
  exact headerLine_clean hpart line

theorem stripLineEnd_isPrefix (s : Bytes) : stripLineEnd s <+: s := by
  rw [stripLineEnd]
  split
  · exact List.take_prefix _ s
  · exact List.prefix_refl s

theorem readPart_clean (h : readPart piece = some part) : part.Clean ∧ part.data <:+: piece := by
  obtain ⟨⟨block, data⟩, hcut, rfl⟩ := Option.map_eq_some_iff.1 h
  refine ⟨parsePartHeaders_clean block, ?_⟩
  rw [cutAt_some hcut, ← List.append_assoc]
  exact (List.suffix_append _ data).isInfix

theorem partsLoop_clean (hd : d ≠ []) (h : partsLoop d room data = some parts) :
    ∀ p ∈ parts, p.Clean ∧ ¬ d <:+: p.data := by
  have hpart : ∀ {content rest part data}, cutAt d data = some (content, rest) →
      readPart (stripLineEnd content) = some part → part.Clean ∧ ¬ d <:+: part.data := by
    intro content rest part data hcut hread
    obtain ⟨hclean, hin⟩ := readPart_clean hread
    exact ⟨hclean, fun hm => cutAt_before hd hcut (hm.trans (hin.trans (stripLineEnd_isPrefix _).isInfix))⟩
  induction room generalizing data parts with
  | zero =>
    rcases partsLoop_cases h with ⟨rfl, -⟩ | ⟨_, _, _, _, _, -, -, -, hroom, -⟩
    · intro p hp
      cases hp
    · cases hroom
  | succ room ih =>
    rcases partsLoop_cases h with ⟨rfl, -⟩ | ⟨content, rest, part, ps, room', -, hcut, hread, hroom, rfl, hmore⟩
    · intro p hp
      cases hp
    · cases hroom
      have hps : ∀ p ∈ ps, p.Clean ∧ ¬ d <:+: p.data := by
        rcases hmore with ⟨-, hps⟩ | ⟨-, rfl⟩
        · exact ih hps
        · intro p hp
          cases hp
      intro p hp
      rcases List.mem_cons.1 hp with rfl | hp
      · exact hpart hcut hread
      · exact hps p hp

end Clean

end Hical.Multipart
