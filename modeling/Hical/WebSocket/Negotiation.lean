import Hical.Picohttp.Request
import Hical.StaticFiles.Ranges

namespace Hical

structure WsCompressionConfig where
  enabled : Bool := false
  serverMaxWindowBits : Int := 15
  clientMaxWindowBits : Int := 15
  serverNoContextTakeover : Bool := false
  deriving DecidableEq

structure WsDeflateNegotiation where
  accepted : Bool := false
  serverMaxWindowBits : Int := 15
  clientMaxWindowBits : Int := 15
  serverNoContextTakeover : Bool := false
  clientNoContextTakeover : Bool := false
  deriving DecidableEq

/-- `WsDeflateContext::Config`. -/
structure WsDeflateConfig where
  serverMaxWindowBits : Int := 15
  clientMaxWindowBits : Int := 15
  serverNoContextTakeover : Bool := false
  clientNoContextTakeover : Bool := false
  compLevel : Int := 6
  memLevel : Int := 4
  deriving DecidableEq

namespace WsHandshake

def trimWs (sv : Bytes) : Bytes := trimWith (· == SP) sv

def equalSign : UInt8 := 61

def extractParamValue (token : Bytes) : Bytes :=
  match cut equalSign token with
  | (_, none) => []
  | (_, some value) => trimWs value

/-- `std::from_chars` for `int`. -/
def fromCharsInt (s : Bytes) : Option Int := (StaticFiles.fromChars s).filter fun n => -2 ^ 31 ≤ n ∧ n < 2 ^ 31

def windowBits (token : Bytes) : Option Int :=
  let val := extractParamValue token
  if val = [] then none else (fromCharsInt val).filter fun bits => 8 ≤ bits ∧ bits ≤ 15

/-- The parameter of an offer. -/
def parseParam (serverCfg : WsCompressionConfig) (result : WsDeflateNegotiation) (token : Bytes) :
    WsDeflateNegotiation :=
  if (bytes "server_max_window_bits").isPrefixOf token then
    match windowBits token with
    | some bits => { result with serverMaxWindowBits := min bits serverCfg.serverMaxWindowBits }
    | none => result
  else if (bytes "client_max_window_bits").isPrefixOf token then
    match windowBits token with
    | some bits => { result with clientMaxWindowBits := min bits serverCfg.clientMaxWindowBits }
    | none => result
  else if token = bytes "server_no_context_takeover" then { result with serverNoContextTakeover := true }
  else if token = bytes "client_no_context_takeover" then { result with clientNoContextTakeover := true }
  else result

/-- The parameters of an offer; a trailing semicolon only adds an empty one. -/
def offerTokens (offer : Bytes) : List Bytes :=
  match cut semicolon (trimWs offer) with
  | (_, none) => []
  | (_, some params) => (params.splitOn semicolon).map trimWs

def isDeflateOffer (offer : Bytes) : Bool :=
  iequals (trimWs (cut semicolon (trimWs offer)).1) (bytes "permessage-deflate")

/-- The offer that `negotiateDeflate` accepts; a trailing comma only adds an empty one. -/
def acceptedOffer (extHeader : Bytes) : Option Bytes := (extHeader.splitOn comma).find? isDeflateOffer

def negotiateDeflate (extHeader : Bytes) (serverCfg : WsCompressionConfig) : WsDeflateNegotiation :=
  if extHeader = [] || !serverCfg.enabled then {}
  else
    match acceptedOffer extHeader with
    | none => {}
    | some offer =>
      (offerTokens offer).foldl (parseParam serverCfg)
        { accepted := true, serverMaxWindowBits := serverCfg.serverMaxWindowBits,
          clientMaxWindowBits := serverCfg.clientMaxWindowBits,
          serverNoContextTakeover := serverCfg.serverNoContextTakeover }

def number (n : Int) : Bytes := bytes (toString n)

def extensionLine (neg : WsDeflateNegotiation) : Bytes :=
  bytes "Sec-WebSocket-Extensions: permessage-deflate" ++
    bytes "; server_max_window_bits=" ++ number neg.serverMaxWindowBits ++
    bytes "; client_max_window_bits=" ++ number neg.clientMaxWindowBits ++
    (if neg.serverNoContextTakeover then bytes "; server_no_context_takeover" else []) ++
    (if neg.clientNoContextTakeover then bytes "; client_no_context_takeover" else [])

def buildWsAcceptResponse (acceptKey : Bytes) (deflateNeg : Option WsDeflateNegotiation) (subprotocol : Bytes) :
    Bytes :=
  bytes "HTTP/1.1 101 Switching Protocols\r\n" ++ bytes "Upgrade: websocket\r\n" ++
    bytes "Connection: Upgrade\r\n" ++ bytes "Sec-WebSocket-Accept: " ++ acceptKey ++ crlf ++
    (match deflateNeg with
      | some neg => if neg.accepted then extensionLine neg ++ crlf else []
      | none => []) ++
    (if subprotocol = [] then [] else bytes "Sec-WebSocket-Protocol: " ++ subprotocol ++ crlf) ++ crlf

def deflateConfig (neg : WsDeflateNegotiation) : WsDeflateConfig :=
  { serverMaxWindowBits := neg.serverMaxWindowBits, clientMaxWindowBits := neg.clientMaxWindowBits,
    serverNoContextTakeover := neg.serverNoContextTakeover,
    clientNoContextTakeover := neg.clientNoContextTakeover, compLevel := 6, memLevel := 4 }

/-- The initialisations of zlib, which succeed or not. -/
structure Zlib where
  deflateInit2 : (level windowBits memLevel : Int) → Bool
  inflateInit2 : (windowBits : Int) → Bool

/-- Negative bits are for raw streams. Raw deflate takes windows of 9 to 15 bits. -/
def Zlib.RawDeflate (z : Zlib) : Prop :=
  ∀ level bits memLevel, 0 ≤ level → level ≤ 9 → 1 ≤ memLevel → memLevel ≤ 9 → 0 < bits →
    (z.deflateInit2 level (-bits) memLevel = true ↔ 9 ≤ bits ∧ bits ≤ 15)

/-- Raw inflate takes windows of 8 to 15 bits. -/
def Zlib.RawInflate (z : Zlib) : Prop :=
  ∀ bits, 0 < bits → (z.inflateInit2 (-bits) = true ↔ 8 ≤ bits ∧ bits ≤ 15)

/-- The constructor of `WsDeflateContext` does not throw. -/
def Zlib.creates (z : Zlib) (config : WsDeflateConfig) : Bool :=
  z.deflateInit2 config.compLevel (-config.serverMaxWindowBits) config.memLevel &&
    z.inflateInit2 (-config.clientMaxWindowBits)

section Offers

def quote : UInt8 := 34

def backslash : UInt8 := 92

/-- The contents of a quoted string, from behind its first quote. -/
def unquoted : Bytes → Bytes
  | [] => []
  | b :: s =>
    if b = quote then []
    else if b = backslash then
      match s with
      | [] => []
      | c :: s => c :: unquoted s
    else b :: unquoted s

/-- A parameter of an offer: a name, and a token or a quoted string as its value. -/
def extensionParam (text : Bytes) : Bytes × Option Bytes :=
  ((trimWith isBlank (cut equalSign text).1),
    (cut equalSign text).2.map fun value =>
      match trimWith isBlank value with
      | [] => []
      | b :: s => if b = quote then unquoted s else b :: s)

def offeredParams (offer : Bytes) : List (Bytes × Option Bytes) :=
  (((cut semicolon offer).2.map fun params => params.splitOn semicolon).getD []).map
    extensionParam

def offeredWindows (offer : Bytes) : List Nat :=
  (offeredParams offer).filterMap fun p =>
    if p.1 = bytes "server_max_window_bits" then p.2.bind StaticFiles.plainNumber else none

def OffersClientBits (offer : Bytes) : Prop := ∃ p ∈ offeredParams offer, p.1 = bytes "client_max_window_bits"

def NamesClientBits (response : Bytes) : Prop :=
  ∃ l ∈ lines response, bytes "Sec-WebSocket-Extensions: " <+: l ∧ bytes "client_max_window_bits" <:+: l

end Offers

def serverBits (token : Bytes) : Option Int :=
  if (bytes "server_max_window_bits").isPrefixOf token then windowBits token else none

def lastWindow (offer : Bytes) : Option Int := ((offerTokens offer).filterMap serverBits).getLast?

/-- The context for the accepted offer can be created, the window is not larger than the offered one, and
the response names no parameter that the offer does not have. -/
structure Admissible (z : Zlib) (neg : WsDeflateNegotiation) (offer : Bytes) : Prop where
  created : z.creates (deflateConfig neg) = true
  within : ∀ w ∈ offeredWindows offer, neg.serverMaxWindowBits ≤ w
  named : ∀ acceptKey subprotocol, NamesClientBits (buildWsAcceptResponse acceptKey (some neg) subprotocol) →
    OffersClientBits offer

/-- Offers that are answered as they ask for. -/
structure Answerable (serverCfg : WsCompressionConfig) (offer : Bytes) : Prop where
  clientBits : OffersClientBits offer
  window : lastWindow offer ≠ some 8
  windows : ∀ w ∈ offeredWindows offer,
    serverCfg.serverMaxWindowBits ≤ w ∨ ∃ bits, lastWindow offer = some bits ∧ bits ≤ w

section Negotiating
variable {serverCfg : WsCompressionConfig} {result : WsDeflateNegotiation} {token extHeader offer : Bytes}

theorem windowBits_bounds (h : windowBits token = some bits) : 8 ≤ bits ∧ bits ≤ 15 := by
  rw [windowBits] at h
  split at h
  · cases h
  · exact of_decide_eq_true (Option.filter_eq_some_iff.1 h).2

theorem serverBits_bounds (h : serverBits token = some bits) : 8 ≤ bits ∧ bits ≤ 15 := by
  rw [serverBits] at h
  split at h
  · exact windowBits_bounds h
  · cases h

theorem parseParam_server (serverCfg : WsCompressionConfig) (result : WsDeflateNegotiation) (token : Bytes) :
    (parseParam serverCfg result token).serverMaxWindowBits =
      ((serverBits token).map (min · serverCfg.serverMaxWindowBits)).getD result.serverMaxWindowBits := by
  rw [parseParam, serverBits]
  split
  · cases windowBits token with
    | some bits => rfl
    | none => rfl
  · split
    · cases windowBits token with
      | some bits => rfl
      | none => rfl
    · split
      · rfl
      · split
        · rfl
        · rfl

theorem parseParam_accepted (serverCfg : WsCompressionConfig) (result : WsDeflateNegotiation) (token : Bytes) :
    (parseParam serverCfg result token).accepted = result.accepted := by
  rw [parseParam]
  split
  · cases windowBits token with
    | some bits => rfl
    | none => rfl
  · split
    · cases windowBits token with
      | some bits => rfl
      | none => rfl
    · split
      · rfl
      · split
        · rfl
        · rfl

theorem parseParam_client (hlo : 8 ≤ serverCfg.clientMaxWindowBits) (hhi : serverCfg.clientMaxWindowBits ≤ 15)
    (h : 8 ≤ result.clientMaxWindowBits ∧ result.clientMaxWindowBits ≤ 15) :
    8 ≤ (parseParam serverCfg result token).clientMaxWindowBits ∧
      (parseParam serverCfg result token).clientMaxWindowBits ≤ 15 := by
  rw [parseParam]
  split
  · cases windowBits token with
    | some bits => exact h
    | none => exact h
  · split
    · cases hbits : windowBits token with
      | some bits =>
        have hbounds := windowBits_bounds hbits
        dsimp only
        omega
      | none => exact h
    · split
      · exact h
      · split
        · exact h
        · exact h

theorem foldl_server (serverCfg : WsCompressionConfig) (tokens : List Bytes) (result : WsDeflateNegotiation) :
    (tokens.foldl (parseParam serverCfg) result).serverMaxWindowBits =
      ((tokens.filterMap serverBits).getLast?.map (min · serverCfg.serverMaxWindowBits)).getD
        result.serverMaxWindowBits := by
  induction tokens generalizing result with
  | nil => rfl
  | cons token tokens ih =>
    rw [List.foldl_cons, ih, parseParam_server, List.filterMap_cons]
    cases serverBits token with
    | none => rfl
    | some bits =>
      dsimp only
      rw [List.getLast?_cons]
      cases (tokens.filterMap serverBits).getLast? with
      | none => rfl
      | some last => rfl

theorem foldl_accepted (serverCfg : WsCompressionConfig) (tokens : List Bytes) (result : WsDeflateNegotiation) :
    (tokens.foldl (parseParam serverCfg) result).accepted = result.accepted := by
  induction tokens generalizing result with
  | nil => rfl
  | cons token tokens ih => rw [List.foldl_cons, ih, parseParam_accepted]

theorem foldl_client (hlo : 8 ≤ serverCfg.clientMaxWindowBits) (hhi : serverCfg.clientMaxWindowBits ≤ 15)
    (tokens : List Bytes) (h : 8 ≤ result.clientMaxWindowBits ∧ result.clientMaxWindowBits ≤ 15) :
    8 ≤ (tokens.foldl (parseParam serverCfg) result).clientMaxWindowBits ∧
      (tokens.foldl (parseParam serverCfg) result).clientMaxWindowBits ≤ 15 := by
  induction tokens generalizing result with
  | nil => exact h
  | cons token tokens ih => exact ih (parseParam_client hlo hhi h)

/-- Without an offer for deflate nothing is accepted. -/
theorem negotiateDeflate_none (h : acceptedOffer extHeader = none) :
    (negotiateDeflate extHeader serverCfg).accepted = false := by
  rw [negotiateDeflate, h]
  split
  · rfl
  · rfl

theorem negotiateDeflate_some (henabled : serverCfg.enabled = true) (h : acceptedOffer extHeader = some offer) :
    negotiateDeflate extHeader serverCfg = (offerTokens offer).foldl (parseParam serverCfg)
      { accepted := true, serverMaxWindowBits := serverCfg.serverMaxWindowBits,
        clientMaxWindowBits := serverCfg.clientMaxWindowBits,
        serverNoContextTakeover := serverCfg.serverNoContextTakeover } := by
  have hheader : ¬ (extHeader = [] || !serverCfg.enabled) = true := by
    rw [henabled, Bool.or_eq_true, decide_eq_true_eq]
    rintro (rfl | hdisabled)
    · have hnone : acceptedOffer [] = none := rfl
      rw [hnone] at h
      cases h
    · cases hdisabled
  rw [negotiateDeflate, if_neg hheader, h]

theorem window_le_iff {own : Int} {last : Option Int} {w : Int} :
    ((last.map (min · own)).getD own) ≤ w ↔ own ≤ w ∨ ∃ bits, last = some bits ∧ bits ≤ w := by
  cases last with
  | none =>
    constructor
    · exact .inl
    · rintro (h | ⟨bits, hbits, -⟩)
      · exact h
      · cases hbits
  | some bits =>
    have hmin : min bits own ≤ w ↔ bits ≤ w ∨ own ≤ w := by omega
    show min bits own ≤ w ↔ _
    rw [hmin]
    constructor
    · rintro (h | h)
      · exact .inr ⟨bits, rfl, h⟩
      · exact .inl h
    · rintro (h | ⟨bits', hbits, h⟩)
      · exact .inr h
      · cases hbits
        exact .inl h

theorem not_mem_number (h : 0 ≤ n) : CR ∉ number n := by
  obtain ⟨k, rfl⟩ := Int.eq_ofNat_of_zero_le h
  intro hmem
  exact (Response.containsCRLF_eq_false.1 (Response.containsCRLF_decimal k) CR hmem).1 rfl

theorem not_mem_extensionLine {neg : WsDeflateNegotiation} (hserver : 0 ≤ neg.serverMaxWindowBits)
    (hclient : 0 ≤ neg.clientMaxWindowBits) : CR ∉ extensionLine neg := by
  have hflag : ∀ (flag : Bool) (text : Bytes), CR ∉ text → CR ∉ (if flag then text else []) := by
    intro flag text htext
    cases flag with
    | true => exact htext
    | false => exact List.not_mem_nil
  rw [extensionLine]
  simp only [List.mem_append, not_or]
  exact ⟨⟨⟨⟨⟨⟨by decide, by decide⟩, not_mem_number hserver⟩, by decide⟩, not_mem_number hclient⟩,
    hflag _ _ (by decide)⟩, hflag _ _ (by decide)⟩

theorem namesClientBits {neg : WsDeflateNegotiation} (haccepted : neg.accepted = true)
    (hserver : 0 ≤ neg.serverMaxWindowBits) (hclient : 0 ≤ neg.clientMaxWindowBits) :
    NamesClientBits (buildWsAcceptResponse [] (some neg) []) := by
  let head : List Bytes := [bytes "HTTP/1.1 101 Switching Protocols", bytes "Upgrade: websocket",
    bytes "Connection: Upgrade", bytes "Sec-WebSocket-Accept: "]
  have hwire : buildWsAcceptResponse [] (some neg) [] = unlines (head ++ [extensionLine neg]) ++ crlf := by
    simp only [buildWsAcceptResponse, haccepted, if_pos, unlines_append, unlines_cons, unlines_nil,
      List.append_nil, List.append_assoc]
    rfl
  have hlines : ∀ l ∈ head ++ [extensionLine neg], CR ∉ l := by
    intro l hl
    cases List.mem_append.1 hl with
    | inl hl =>
      have hall : ∀ l ∈ head, CR ∉ l := by decide
      exact hall l hl
    | inr hl =>
      rw [List.mem_singleton.1 hl]
      exact not_mem_extensionLine hserver hclient
  rw [NamesClientBits, hwire, lines_unlines hlines]
  refine ⟨extensionLine neg, ?_, ?_, ?_⟩
  · exact List.mem_append_left _ (List.mem_append_right _ (List.mem_singleton.2 rfl))
  · rw [extensionLine]
    simp only [List.append_assoc]
    have htext : bytes "Sec-WebSocket-Extensions: " <+:
        bytes "Sec-WebSocket-Extensions: permessage-deflate" := ⟨bytes "permessage-deflate", rfl⟩
    exact htext.trans (List.prefix_append ..)
  · rw [extensionLine]
    simp only [List.append_assoc]
    have htext : bytes "client_max_window_bits" <:+: bytes "; client_max_window_bits=" :=
      ⟨bytes "; ", bytes "=", rfl⟩
    apply htext.trans
    apply List.infix_append_left.trans
    apply List.infix_append_right.trans
    exact List.infix_append_right.trans List.infix_append_right

/-- For every header and every configuration the negotiation is admissible exactly when the accepted offer,
if there is one, is answerable. -/
theorem negotiation_admissible_iff (z : Zlib) (hdeflate : z.RawDeflate) (hinflate : z.RawInflate)
    (serverCfg : WsCompressionConfig) (henabled : serverCfg.enabled = true)
    (hserver : 9 ≤ serverCfg.serverMaxWindowBits ∧ serverCfg.serverMaxWindowBits ≤ 15)
    (hclient : 9 ≤ serverCfg.clientMaxWindowBits ∧ serverCfg.clientMaxWindowBits ≤ 15) (extHeader : Bytes) :
    ((negotiateDeflate extHeader serverCfg).accepted = true → ∃ offer, acceptedOffer extHeader = some offer ∧
        Admissible z (negotiateDeflate extHeader serverCfg) offer) ↔
      ∀ offer, acceptedOffer extHeader = some offer → Answerable serverCfg offer := by
  cases hoffer : acceptedOffer extHeader with
  | none =>
    rw [negotiateDeflate_none hoffer]
    exact iff_of_true (fun h => absurd h Bool.false_ne_true) fun _ h => by cases h
  | some offer =>
    have hneg := negotiateDeflate_some henabled hoffer
    generalize negotiateDeflate extHeader serverCfg = neg at hneg ⊢
    have haccepted : neg.accepted = true := by rw [hneg, foldl_accepted]
    have hwindow : neg.serverMaxWindowBits =
        ((lastWindow offer).map (min · serverCfg.serverMaxWindowBits)).getD serverCfg.serverMaxWindowBits := by
      rw [hneg, foldl_server]
      rfl
    have hclientBits : 8 ≤ neg.clientMaxWindowBits ∧ neg.clientMaxWindowBits ≤ 15 := by
      rw [hneg]
      apply foldl_client (by omega) hclient.2
      exact ⟨by dsimp only; omega, hclient.2⟩
    have hlast : ∀ bits, lastWindow offer = some bits → 8 ≤ bits ∧ bits ≤ 15 := by
      intro bits hbits
      obtain ⟨token, -, htoken⟩ := List.mem_filterMap.1 (List.mem_of_getLast? hbits)
      exact serverBits_bounds htoken
    have hbounds : 8 ≤ neg.serverMaxWindowBits ∧ neg.serverMaxWindowBits ≤ 15 ∧
        (9 ≤ neg.serverMaxWindowBits ↔ lastWindow offer ≠ some 8) := by
      rw [hwindow]
      cases hbits : lastWindow offer with
      | none => exact ⟨by dsimp; omega, hserver.2, iff_of_true hserver.1 (Option.some_ne_none _).symm⟩
      | some bits =>
        have hrange := hlast bits hbits
        show 8 ≤ min bits serverCfg.serverMaxWindowBits ∧ min bits serverCfg.serverMaxWindowBits ≤ 15 ∧
          (9 ≤ min bits serverCfg.serverMaxWindowBits ↔ some bits ≠ some 8)
        rw [Ne, Option.some.injEq]
        omega
    have hcreated : z.creates (deflateConfig neg) = true ↔ lastWindow offer ≠ some 8 := by
      have hraw : z.deflateInit2 6 (-neg.serverMaxWindowBits) 4 = true ↔
          9 ≤ neg.serverMaxWindowBits ∧ neg.serverMaxWindowBits ≤ 15 :=
        hdeflate 6 neg.serverMaxWindowBits 4 (by decide) (by decide) (by decide) (by decide) (by omega)
      have hinit : z.inflateInit2 (-neg.clientMaxWindowBits) = true :=
        (hinflate neg.clientMaxWindowBits (by omega)).2 hclientBits
      have hboth : z.creates (deflateConfig neg) =
          (z.deflateInit2 6 (-neg.serverMaxWindowBits) 4 && z.inflateInit2 (-neg.clientMaxWindowBits)) := rfl
      rw [hboth, hinit, Bool.and_true, hraw, and_iff_left hbounds.2.1]
      exact hbounds.2.2
    constructor
    · intro h offer' hoffer'
      cases hoffer'
      obtain ⟨offer', hoffer', hadmissible⟩ := h haccepted
      cases hoffer'
      constructor
      · apply hadmissible.named [] []
        exact namesClientBits haccepted (by omega) (by omega)
      · exact hcreated.1 hadmissible.created
      · intro w hw
        exact window_le_iff.1 (hwindow ▸ hadmissible.within w hw)
    · intro h _
      have hanswerable := h offer rfl
      refine ⟨offer, rfl, hcreated.2 hanswerable.window, ?_, fun _ _ _ => hanswerable.clientBits⟩
      intro w hw
      rw [hwindow]
      exact window_le_iff.2 (hanswerable.windows w hw)

end Negotiating

/-- zlib as far as its initialisations are concerned. -/
def documentedZlib : Zlib where
  deflateInit2 level windowBits memLevel :=
    decide (0 ≤ level ∧ level ≤ 9 ∧ 1 ≤ memLevel ∧ memLevel ≤ 9 ∧ -15 ≤ windowBits ∧ windowBits ≤ -9)
  inflateInit2 windowBits := decide (-15 ≤ windowBits ∧ windowBits ≤ -8)

theorem documentedZlib_rawDeflate : documentedZlib.RawDeflate := by
  intro level bits memLevel hlo hhi hlo' hhi' hbits
  rw [documentedZlib, decide_eq_true_eq]
  omega

theorem documentedZlib_rawInflate : documentedZlib.RawInflate := by
  intro bits hbits
  rw [documentedZlib, decide_eq_true_eq]
  omega

theorem negotiation_admissible_iff_ten :
    let extHeader := bytes "permessage-deflate; server_max_window_bits=10; client_max_window_bits"
    ((negotiateDeflate extHeader { enabled := true }).accepted = true →
        ∃ offer, acceptedOffer extHeader = some offer ∧
          Admissible documentedZlib (negotiateDeflate extHeader { enabled := true }) offer) ↔
      ∀ offer, acceptedOffer extHeader = some offer → Answerable { enabled := true } offer :=
  negotiation_admissible_iff documentedZlib documentedZlib_rawDeflate documentedZlib_rawInflate { enabled := true }
    rfl ⟨by decide, by decide⟩ ⟨by decide, by decide⟩
    (bytes "permessage-deflate; server_max_window_bits=10; client_max_window_bits")

/-- A window of 8 bits makes the context throw, a quoted window is overlooked, and the client's window is
named where it was not offered. -/
theorem inadmissible :
    let neg (extHeader : String) := negotiateDeflate (bytes extHeader) { enabled := true }
    let eight := "permessage-deflate; server_max_window_bits=8; client_max_window_bits"
    let quoted := "permessage-deflate; server_max_window_bits=\"10\"; client_max_window_bits"
    let bare := "permessage-deflate"
    (neg eight).accepted = true ∧ documentedZlib.creates (deflateConfig (neg eight)) = false ∧
      (neg quoted).accepted = true ∧ (neg quoted).serverMaxWindowBits = 15 ∧ offeredWindows (bytes quoted) = [10] ∧
      (neg bare).accepted = true ∧ NamesClientBits (buildWsAcceptResponse [] (some (neg bare)) []) ∧
      offeredParams (bytes bare) = [] := by
  intro neg eight quoted bare
  have height : (neg eight).accepted = true ∧ documentedZlib.creates (deflateConfig (neg eight)) = false := by
    decide +kernel
  have hquoted : (neg quoted).accepted = true ∧ (neg quoted).serverMaxWindowBits = 15 ∧
      offeredWindows (bytes quoted) = [10] := by decide +kernel
  have hbare : (neg bare).accepted = true ∧ 0 ≤ (neg bare).serverMaxWindowBits ∧
      0 ≤ (neg bare).clientMaxWindowBits ∧ offeredParams (bytes bare) = [] := by decide +kernel
  exact ⟨height.1, height.2, hquoted.1, hquoted.2.1, hquoted.2.2, hbare.1,
    namesClientBits hbare.1 hbare.2.1 hbare.2.2.1, hbare.2.2.2⟩

end WsHandshake

end Hical
