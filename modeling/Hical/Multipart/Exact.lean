import Hical.Multipart.RoundTrip

namespace Hical.Multipart
open Search

/-- The parser looks for `e` where the parts are delimited by `d`. -/
structure Misread (e d : Bytes) : Prop where
  oneLine : OneLine e
  ne : e ≠ []
  sent : OneLine d
  apart : ¬ e <:+: d
  close : ∀ p q, cutAt e (d ++ dashes) = some (p, q) → q = [] ∧ 2 ≤ p.length

theorem stripLineEnd_self (hp : OneLine p) (hne : p ≠ []) (x : Bytes) : stripLineEnd (x ++ p) = x ++ p := by
  apply if_neg
  intro hend
  obtain ⟨t, ht⟩ := hend
  have hlast := congrArg List.getLast? ht
  rw [List.getLast?_append_of_ne_nil _ hne] at hlast
  have hlf : (t ++ crlf).getLast? = some LF := by
    rw [List.getLast?_append_of_ne_nil _ (by decide)]
    rfl
  rw [hlf] at hlast
  exact hp.2 (List.mem_of_getLast? hlast.symm)

/-- A last part that runs into the closing line is not the one that was sent. -/
theorem readPart_runs_on (hp : OneLine p) (hlen : 2 ≤ p.length)
    (h : readPart (stripLineEnd (x ++ y ++ (crlf ++ p))) = some part) : part.data ≠ y := by
  have hne : p ≠ [] := by
    rintro rfl
    cases hlen
  have hstrip : stripLineEnd (x ++ y ++ (crlf ++ p)) = x ++ y ++ (crlf ++ p) := by
    rw [← List.append_assoc]
    exact stripLineEnd_self hp hne _
  rw [hstrip] at h
  obtain ⟨block, data, hcut, rfl⟩ := readPart_eq_some h
  rintro rfl
  have heq := cutAt_some hcut
  dsimp only at heq
  -- the two line ends in front of the data would be inside `x`
  have hcount := congrArg (List.count CR) heq
  have hsize := congrArg List.length heq
  have hcr : List.count CR p = 0 := List.count_eq_zero_of_not_mem hp.1
  have htwo : List.count CR crlf = 1 := rfl
  have hcl : crlf.length = 2 := rfl
  simp only [List.count_append, hcr, htwo] at hcount
  simp only [List.length_append, hcl] at hsize
  have hpre : x <+: block := by
    have hx : x <+: x ++ data ++ (crlf ++ p) := ⟨data ++ (crlf ++ p), by rw [List.append_assoc]⟩
    apply List.prefix_of_prefix_length_le hx
    · rw [heq]
      exact List.prefix_append _ _
    · omega
  have hle := hpre.sublist.count_le CR
  omega

/-- An occurrence inside a header block leaves the loop without an empty line. -/
theorem partsLoop_inside {p : FormPart} (hin : x <:+: p.block) (hm : e <:+: x) (hne : e ≠ []) (y : Bytes) (room : Nat) :
    partsLoop e room (x ++ y) = none := by
  obtain ⟨u, v, hcut⟩ := cutAt_of_infix hm
  have hx : x ≠ [] := by
    rintro rfl
    exact hne (List.infix_nil.1 hm)
  have hu : u <:+: p.block := by
    apply List.IsInfix.trans _ hin
    rw [cutAt_some hcut]
    exact (List.prefix_append _ _).isInfix
  have hread : readPart (stripLineEnd u) = none := by
    rw [readPart, Option.map_eq_none_iff, cutAt_none_iff]
    exact fun he => p.block_no_emptyLine (he.trans ((stripLineEnd_isPrefix u).isInfix.trans hu))
  exact partsLoop_unread (List.append_ne_nil_of_left_ne_nil hx y) (cutAt_extend hcut y) hread

section Missed
variable {e d : Bytes} (m : Misread e d)
include m

theorem cutAt_close : cutAt e (encode d []) = (cutAt e (d ++ dashes)).map fun r => (r.1, r.2 ++ crlf) := by
  have hassoc : encode d [] = d ++ dashes ++ (crlf ++ []) := by
    rw [encode, List.append_assoc, List.append_nil]
  rw [hassoc]
  cases hcut : cutAt e (d ++ dashes) with
  | none =>
    have hnil : cutAt e [] = none := if_neg m.ne
    rw [cutAt_crlf m.oneLine m.ne (cutAt_none_iff.1 hcut), hnil]
    rfl
  | some r => exact cutAt_extend hcut _

theorem partsLoop_after (p : FormPart) (hblock : p.block = b ++ (e ++ b')) (hdata : ¬ e <:+: p.data)
    (hcrlf : crlf <+: b' ++ (crlf ++ (crlf ++ (p.data ++ rest))))
    (h : partsLoop e room ((b' ++ (crlf ++ (crlf ++ (p.data ++ rest)))).drop 2) = some out) :
    ∃ x, ¬ e <:+: x ++ p.data ∧ partsLoop e room (x ++ p.data ++ rest) = some out := by
  have hempty : ¬ e <:+: crlf ++ p.data := by
    rw [← List.nil_append (crlf ++ p.data), infix_crlf m.oneLine m.ne, List.infix_nil, not_or]
    exact ⟨m.ne, hdata⟩
  cases b' with
  | nil =>
    refine ⟨crlf, hempty, ?_⟩
    rw [List.append_assoc]
    exact h
  | cons c b' =>
    cases b' with
    | nil =>
      obtain ⟨t, ht⟩ := hcrlf
      injection ht with _ ht
      exact absurd (List.cons.inj ht).1 (by decide)
    | cons c' b' =>
      have hin : b' <:+: p.block := by
        rw [hblock]
        exact ⟨b ++ (e ++ [c, c']), [], by simp⟩
      have hloop : partsLoop e room (b' ++ (crlf ++ (crlf ++ (p.data ++ rest)))) = some out := h
      have hno : ¬ e <:+: b' := by
        intro hm
        rw [partsLoop_inside hin hm m.ne] at hloop
        cases hloop
      refine ⟨b' ++ (crlf ++ crlf), ?_, ?_⟩
      · rw [List.append_assoc, List.append_assoc, infix_crlf m.oneLine m.ne, not_or]
        exact ⟨hno, hempty⟩
      · have hsame : b' ++ (crlf ++ crlf) ++ p.data ++ rest = b' ++ (crlf ++ (crlf ++ (p.data ++ rest))) := by
          simp only [List.append_assoc]
        rw [hsame]
        exact hloop

/-- Where the loop stands after the header block of the next part has been passed over. -/
theorem partsLoop_missed (ps : List FormPart) (hno : ¬ e <:+: x ++ y) (hdata : ∀ p ∈ ps, ¬ e <:+: p.data)
    (h : partsLoop e room (x ++ y ++ (crlf ++ encode d ps)) = some out) :
    out.length ≤ ps.length + 1 ∧ out.map MultipartPart.data ≠ y :: ps.map FormPart.data := by
  induction ps generalizing x y room out with
  | nil =>
    rcases partsLoop_cases h with ⟨rfl, -⟩ | ⟨content, rest, part, out', room', -, hcut, hread, -, rfl, hmore⟩
    · exact ⟨Nat.zero_le _, List.cons_ne_nil _ _ |>.symm⟩
    · rw [cutAt_crlf m.oneLine m.ne hno, cutAt_close m, Option.map_map, Option.map_eq_some_iff] at hcut
      obtain ⟨⟨p, q⟩, hclose, heq⟩ := hcut
      cases heq
      obtain ⟨rfl, hlen⟩ := m.close p q hclose
      have hp : OneLine p := by
        have hsent : OneLine (d ++ dashes) := m.sent.append (by decide)
        have hin : p ⊆ d ++ dashes := by
          rw [cutAt_some hclose]
          exact List.subset_append_left _ _
        exact ⟨fun hm => hsent.1 (hin hm), fun hm => hsent.2 (hin hm)⟩
      have hdiff := readPart_runs_on hp hlen hread
      have hout : out' = [] := by
        rcases hmore with ⟨-, hnext⟩ | ⟨-, hnil⟩
        · have hdrop : ([] ++ crlf : Bytes).drop 2 = [] := rfl
          rw [hdrop, partsLoop_nil] at hnext
          cases hnext
          rfl
        · exact hnil
      subst hout
      refine ⟨Nat.le_refl 1, ?_⟩
      intro heq
      injection heq with hhead _
      exact hdiff hhead
  | cons p ps ih =>
    have hp := hdata p List.mem_cons_self
    have hps : ∀ q ∈ ps, ¬ e <:+: q.data := fun q hq => hdata q (List.mem_cons_of_mem _ hq)
    have hlong : ¬ e <:+: x ++ y ++ (crlf ++ d) := by
      rw [infix_crlf m.oneLine m.ne, not_or]
      exact ⟨hno, m.apart⟩
    by_cases hb : e <:+: p.block
    · obtain ⟨b, b', hcutb⟩ := cutAt_of_infix hb
      have hcut : cutAt e (x ++ y ++ (crlf ++ encode d (p :: ps))) =
          some (x ++ y ++ (crlf ++ d) ++ (crlf ++ b),
            b' ++ (crlf ++ (crlf ++ (p.data ++ (crlf ++ encode d ps))))) := by
        have hassoc : x ++ y ++ (crlf ++ encode d (p :: ps)) =
            x ++ y ++ (crlf ++ d) ++ (crlf ++ (p.block ++ (crlf ++ (crlf ++ (p.data ++ (crlf ++ encode d ps)))))) := by
          simp only [encode, List.append_assoc]
        rw [hassoc, cutAt_crlf m.oneLine m.ne hlong, cutAt_extend hcutb]
        rfl
      rcases partsLoop_cases h with ⟨rfl, -⟩ | ⟨content, rest, part, out', room', -, hcut', -, -, rfl, hmore⟩
      · exact ⟨Nat.zero_le _, List.cons_ne_nil _ _ |>.symm⟩
      · rw [hcut] at hcut'
        cases hcut'
        rcases hmore with ⟨hcrlf, hnext⟩ | ⟨-, rfl⟩
        · obtain ⟨z, hz, hloop⟩ := partsLoop_after m p (cutAt_some hcutb) hp hcrlf hnext
          obtain ⟨hlen, hdiff⟩ := ih hz hps hloop
          refine ⟨Nat.succ_le_succ hlen, ?_⟩
          intro heq
          injection heq with _ htail
          exact hdiff htail
        · refine ⟨Nat.succ_le_succ (Nat.zero_le _), ?_⟩
          intro heq
          injection heq with _ htail
          cases htail
    · have hmore : ¬ e <:+: x ++ y ++ (crlf ++ d) ++ (crlf ++ (p.block ++ (crlf ++ crlf))) ++ p.data := by
        have hassoc : x ++ y ++ (crlf ++ d) ++ (crlf ++ (p.block ++ (crlf ++ crlf))) ++ p.data =
            x ++ y ++ (crlf ++ d) ++ (crlf ++ (p.block ++ (crlf ++ (crlf ++ p.data)))) := by
          simp only [List.append_assoc]
        rw [hassoc, infix_crlf m.oneLine m.ne, infix_part m.oneLine m.ne, not_or, not_or]
        exact ⟨hlong, hb, hp⟩
      have hassoc : x ++ y ++ (crlf ++ encode d (p :: ps)) =
          x ++ y ++ (crlf ++ d) ++ (crlf ++ (p.block ++ (crlf ++ crlf))) ++ p.data ++ (crlf ++ encode d ps) := by
        simp only [encode, List.append_assoc]
      rw [hassoc] at h
      obtain ⟨hlen, -⟩ := ih hmore hps h
      refine ⟨Nat.le_succ_of_le hlen, ?_⟩
      intro heq
      have hsize := congrArg List.length heq
      simp only [List.length_map, List.length_cons] at hsize
      omega

theorem parseBody_skip (hno : ¬ e <:+: x) (s : Bytes) : parseBody e (x ++ (crlf ++ s)) = parseBody e s := by
  rw [parseBody, parseBody, cutAt_crlf m.oneLine m.ne hno]
  cases cutAt e s <;> rfl

theorem parseBody_close : parseBody e (encode d []) = if e <:+: d ++ dashes then some [] else none := by
  rw [parseBody, cutAt_close m]
  cases hcut : cutAt e (d ++ dashes) with
  | none =>
    rw [if_neg (cutAt_none_iff.1 hcut)]
    rfl
  | some r =>
    obtain ⟨p, q⟩ := r
    obtain ⟨rfl, -⟩ := m.close p q hcut
    have hdrop : crlf.drop 2 = [] := rfl
    rw [if_pos (cutAt_occurs hcut), Option.map_some, List.nil_append]
    dsimp only
    rw [if_pos (List.prefix_refl crlf), hdrop, partsLoop_nil]

/-- A form with parts is never read with another delimiter. -/
theorem parseBody_missed (ps : List FormPart) (hdata : ∀ p ∈ ps, ¬ e <:+: p.data)
    (h : parseBody e (encode d ps) = some out) :
    out.length ≤ ps.length ∧ (ps ≠ [] → out.map MultipartPart.data ≠ ps.map FormPart.data) := by
  induction ps with
  | nil =>
    rw [parseBody_close m] at h
    split at h
    · cases h
      exact ⟨Nat.le_refl 0, fun hne => absurd rfl hne⟩
    · cases h
  | cons p ps ih =>
    have hp := hdata p List.mem_cons_self
    have hps : ∀ q ∈ ps, ¬ e <:+: q.data := fun q hq => hdata q (List.mem_cons_of_mem _ hq)
    by_cases hb : e <:+: p.block
    · obtain ⟨b, b', hcutb⟩ := cutAt_of_infix hb
      have hcut : cutAt e (encode d (p :: ps)) =
          some (d ++ (crlf ++ b), b' ++ (crlf ++ (crlf ++ (p.data ++ (crlf ++ encode d ps))))) := by
        rw [encode, cutAt_crlf m.oneLine m.ne m.apart, cutAt_extend hcutb]
        rfl
      rw [parseBody, hcut] at h
      dsimp only at h
      split at h
      · next hcrlf =>
        obtain ⟨z, hz, hloop⟩ := partsLoop_after m p (cutAt_some hcutb) hp hcrlf h
        obtain ⟨hlen, hdiff⟩ := partsLoop_missed m ps hz hps hloop
        exact ⟨hlen, fun _ => hdiff⟩
      · split at h
        · cases h
          exact ⟨Nat.zero_le _, fun _ => (List.cons_ne_nil _ _).symm⟩
        · cases h
    · have hassoc : encode d (p :: ps) =
          d ++ (crlf ++ (p.block ++ (crlf ++ (crlf ++ p.data)))) ++ (crlf ++ encode d ps) := by
        simp only [encode, List.append_assoc]
      have hno : ¬ e <:+: d ++ (crlf ++ (p.block ++ (crlf ++ (crlf ++ p.data)))) := by
        rw [infix_crlf m.oneLine m.ne, infix_part m.oneLine m.ne, not_or, not_or]
        exact ⟨m.apart, hb, hp⟩
      rw [hassoc, parseBody_skip m hno] at h
      obtain ⟨hlen, -⟩ := ih hps h
      refine ⟨Nat.le_succ_of_le hlen, ?_⟩
      intro _ heq
      have hsize := congrArg List.length heq
      simp only [List.length_map, List.length_cons] at hsize
      omega

end Missed

def dash : UInt8 := 45

theorem partsLoop_apart (hd : OneLine d) (hne : d ≠ []) (p : FormPart) (ps : List FormPart)
    (hdata : ∀ q ∈ p :: ps, ¬ d <:+: q.data)
    (h : partsLoop d room (p.block ++ (crlf ++ (crlf ++ (p.data ++ (crlf ++ encode d ps))))) = some out) :
    ∀ q ∈ p :: ps, ¬ d <:+: q.block := by
  have hblock : ¬ d <:+: p.block := by
    intro hm
    rw [partsLoop_inside List.infix_rfl hm hne] at h
    cases h
  induction ps generalizing p room out with
  | nil =>
    intro q hq
    rw [List.mem_singleton.1 hq]
    exact hblock
  | cons r ps ih =>
    have hp : ¬ d <:+: p.block ∧ ¬ d <:+: p.data := ⟨hblock, hdata p List.mem_cons_self⟩
    cases room with
    | zero =>
      have hfull := (partsLoop_full (sent_ne p _) (cutAt_sent hd hne p (r :: ps) hp)).symm.trans h
      cases hfull
    | succ room =>
      rw [partsLoop_sent hd hne p (r :: ps) room hp, if_pos (behind_cons d r ps)] at h
      obtain ⟨out', hnext, -⟩ := Option.map_eq_some_iff.1 h
      have hdata' : ∀ q ∈ r :: ps, ¬ d <:+: q.data := fun q hq => hdata q (List.mem_cons_of_mem _ hq)
      have hr : ¬ d <:+: r.block := by
        intro hm
        have hnone := partsLoop_inside (p := r) List.infix_rfl hm hne
          (crlf ++ (crlf ++ (r.data ++ (crlf ++ encode d ps)))) room
        have hdrop : (behind d (r :: ps)).drop 2 =
            r.block ++ (crlf ++ (crlf ++ (r.data ++ (crlf ++ encode d ps)))) := rfl
        rw [hdrop, hnone] at hnext
        cases hnext
      intro q hq
      rcases List.mem_cons.1 hq with rfl | hq
      · exact hblock
      · exact ih r hdata' hnext hr q hq

theorem parseBody_apart (hd : OneLine d) (hne : d ≠ []) (ps : List FormPart) (hdata : ∀ q ∈ ps, ¬ d <:+: q.data)
    (h : parseBody d (encode d ps) = some out) : ∀ q ∈ ps, ¬ d <:+: q.block := by
  cases ps with
  | nil =>
    intro q hq
    cases hq
  | cons p ps =>
    rw [parseBody, encode_eq, cutAt_append] at h
    dsimp only at h
    rw [if_pos (behind_cons d p ps)] at h
    exact partsLoop_apart hd hne p ps hdata h

theorem parseBody_clean (hd : d ≠ []) (h : parseBody d body = some parts) :
    ∀ p ∈ parts, p.Clean ∧ ¬ d <:+: p.data := by
  rw [parseBody] at h
  split at h
  · cases h
  · split at h
    · exact partsLoop_clean hd h
    · split at h
      · cases h
        intro p hp
        cases hp
      · cases h

theorem all_dash (s : Bytes) (h : dash :: dash :: s = s ++ [dash, dash]) : ∀ c ∈ s, c = dash := by
  induction s using List.twoStepInduction with
  | nil =>
    intro c hc
    cases hc
  | singleton b =>
    injection h with hb _
    intro c hc
    rw [List.mem_singleton.1 hc, hb]
  | cons_cons b b' t ih _ =>
    injection h with hb h
    injection h with hb' h
    subst hb
    subst hb'
    intro c hc
    rcases List.mem_cons.1 hc with hc | hc
    · exact hc
    rcases List.mem_cons.1 hc with hc | hc
    · exact hc
    exact ih h c hc

theorem dashes_comm {s : Bytes} (h : ∀ c ∈ s, c = dash) : dashes ++ s = s ++ dashes := by
  rw [List.eq_replicate_of_mem h]
  have htwo : dashes = List.replicate 2 dash := rfl
  rw [htwo, List.replicate_append_replicate, List.replicate_append_replicate, Nat.add_comm]

namespace Form
variable (f : Form)

theorem dashed_ne : f.dashed ≠ [] := List.append_ne_nil_of_left_ne_nil (by decide) _

theorem oneLine_bare : OneLine f.bare :=
  ⟨fun h => f.not_mem_boundary (by decide) (f.bare_subset h), fun h => f.not_mem_boundary (by decide) (f.bare_subset h)⟩

theorem misread_quote (he : OneLine e) (hq : quote ∈ e) : Misread (dashes ++ e) f.dashed where
  oneLine := OneLine.append (by decide) he
  ne := List.append_ne_nil_of_left_ne_nil (by decide) _
  sent := f.oneLine_dashed
  apart := by
    intro h
    have hm : quote ∈ f.dashed := h.subset (List.mem_append_right _ hq)
    rcases List.mem_append.1 hm with hm | hm
    · exact absurd hm (by decide)
    · exact f.not_mem_boundary (by decide) hm
  close := by
    intro p q hcut
    have hm : quote ∈ f.dashed ++ dashes := (cutAt_occurs hcut).subset (List.mem_append_right _ hq)
    rcases List.mem_append.1 hm with hm | hm
    · rcases List.mem_append.1 hm with hm | hm
      · exact absurd hm (by decide)
      · exact absurd hm (f.not_mem_boundary (by decide))
    · exact absurd hm (by decide)

section Spaces
variable (h : f.boundary.head? = some SP)
include h

theorem boundary_spaces : ∃ u c t, f.boundary = SP :: (u ++ c :: t) ∧ f.bare = c :: t ∧ c ≠ SP ∧ dash ∉ u := by
  have hsplit : f.boundary.takeWhile isSpace ++ f.bare = f.boundary := List.takeWhile_append_dropWhile
  have hspace : ∀ b ∈ f.boundary.takeWhile isSpace, b = SP := by
    intro b hb
    exact f.isSpace_boundary (hsplit ▸ List.mem_append_left _ hb) (List.mem_takeWhile_imp hb)
  have hne := f.bare_ne
  cases hbare : f.bare with
  | nil => exact absurd hbare hne
  | cons c t =>
    have hc : isSpace c = false := by
      have hhead : f.boundary.dropWhile isSpace = c :: t := hbare
      cases hs : isSpace c with
      | false => rfl
      | true =>
        have hidem : (c :: t).dropWhile isSpace = c :: t := by
          rw [← hhead]
          exact List.dropWhile_idempotent ..
        rw [List.dropWhile_cons_of_pos hs] at hidem
        have hlen := (List.dropWhile_suffix (l := t) isSpace).length_le
        rw [hidem, List.length_cons] at hlen
        omega
    cases htake : f.boundary.takeWhile isSpace with
    | nil =>
      rw [htake, hbare] at hsplit
      rw [← hsplit] at h
      injection h with h
      subst h
      cases hc
    | cons b u =>
      rw [htake] at hsplit hspace
      refine ⟨u, c, t, ?_, rfl, ?_, ?_⟩
      · rw [← hsplit, hbare, hspace b List.mem_cons_self, List.cons_append]
      · rintro rfl
        cases hc
      · intro hm
        exact absurd (hspace dash (List.mem_cons_of_mem _ hm)) (by decide)

/-- The delimiter that is searched for is not at the two dashes in front of the boundary. -/
theorem after_dashes (s : Bytes) (heq : f.dashed ++ s = p ++ (dashes ++ f.bare ++ q)) :
    ∃ p', p = dashes ++ p' ∧ f.boundary ++ s = p' ++ (dashes ++ f.bare ++ q) := by
  obtain ⟨u, c, t, hb, hbare, hc, -⟩ := f.boundary_spaces h
  have hfront : f.dashed ++ s = dash :: dash :: SP :: (u ++ c :: t ++ s) := by
    rw [dashed, hb]
    rfl
  cases p with
  | nil =>
    rw [hfront, hbare] at heq
    injection heq with _ heq
    injection heq with _ heq
    exact absurd (List.cons.inj heq).1 (Ne.symm hc)
  | cons x p =>
    cases p with
    | nil =>
      rw [hfront] at heq
      injection heq with _ heq
      injection heq with _ heq
      exact absurd (List.cons.inj heq).1 (by decide)
    | cons y p =>
      injection heq with hx heq
      injection heq with hy heq
      subst hx
      subst hy
      exact ⟨p, rfl, heq⟩

theorem count_boundary : List.count dash f.boundary = List.count dash f.bare := by
  obtain ⟨u, c, t, hb, hbare, -, hu⟩ := f.boundary_spaces h
  have hsp : (SP == dash) = false := rfl
  rw [hb, hbare, List.count_cons_of_ne (by decide), List.count_append, List.count_eq_zero_of_not_mem hu, Nat.zero_add]

theorem misread_spaces : Misread (dashes ++ f.bare) f.dashed where
  oneLine := OneLine.append (by decide) f.oneLine_bare
  ne := List.append_ne_nil_of_left_ne_nil (by decide) _
  sent := f.oneLine_dashed
  apart := by
    rintro ⟨p, q, heq⟩
    have hwhole : f.dashed ++ [] = p ++ (dashes ++ f.bare ++ q) := by
      rw [List.append_nil, ← heq, List.append_assoc]
    obtain ⟨p', rfl, hrest⟩ := f.after_dashes h [] hwhole
    have hcount := congrArg (List.count dash) hrest
    have htwo : List.count dash dashes = 2 := rfl
    rw [List.append_nil, f.count_boundary h, List.count_append, List.count_append, List.count_append, htwo] at hcount
    omega
  close := by
    intro p q hcut
    have hwhole : f.dashed ++ dashes = p ++ (dashes ++ f.bare ++ q) := by
      rw [cutAt_some hcut, List.append_assoc]
    obtain ⟨p', rfl, hrest⟩ := f.after_dashes h dashes hwhole
    have hcount := congrArg (List.count dash) hrest
    have htwo : List.count dash dashes = 2 := rfl
    rw [List.count_append, f.count_boundary h, List.count_append, List.count_append, List.count_append, htwo] at hcount
    refine ⟨?_, ?_⟩
    · cases q with
      | nil => rfl
      | cons b q =>
        have hlast := congrArg List.getLast? hrest
        have hend : (f.boundary ++ dashes).getLast? = some dash := by
          rw [List.getLast?_append_of_ne_nil _ (by decide)]
          rfl
        rw [hend, List.getLast?_append_of_ne_nil _ (by simp), List.getLast?_append_of_ne_nil _ (List.cons_ne_nil _ _)]
          at hlast
        have hm : dash ∈ b :: q := List.mem_of_getLast? hlast.symm
        have hpos := List.count_pos_iff.2 hm
        omega
    · rw [List.length_append]
      exact Nat.le_add_right 2 _

/-- Without parts, the closing line may still hold what is searched for. -/
theorem infix_close : dashes ++ f.bare <:+: f.dashed ++ dashes ↔ ∀ c ∈ f.bare, c = dash := by
  obtain ⟨u, c, t, hb, hbare, -, -⟩ := f.boundary_spaces h
  have hfront : f.dashed ++ dashes = dashes ++ SP :: u ++ (f.bare ++ dashes) := by
    rw [dashed, hb, hbare]
    simp
  constructor
  · intro hin
    obtain ⟨p, q, hcut⟩ := cutAt_of_infix hin
    obtain ⟨rfl, -⟩ := (f.misread_spaces h).close p q hcut
    have heq := cutAt_some hcut
    rw [hfront, List.append_nil] at heq
    have hlen := congrArg List.length heq
    simp only [List.length_append] at hlen
    have hpre : (dashes ++ SP :: u).length = p.length := by
      rw [List.length_append]
      omega
    exact all_dash f.bare (List.append_inj heq hpre).2.symm
  · intro hall
    rw [hfront, ← dashes_comm hall]
    exact (List.suffix_append _ _).isInfix

end Spaces

/-- The forms that come back. -/
structure Readable (f : Form) : Prop where
  only : ∀ t ∈ f.before, ¬ bytes "boundary=" <:+: t
  last : f.quotes = true → f.after = []
  flush : f.boundary.head? ≠ some SP ∨ f.parts = [] ∧ ∀ c ∈ f.bare, c = dash
  unsplit : ∀ p ∈ f.parts, p.Unsplit
  apart : ∀ p ∈ f.parts, ¬ f.dashed <:+: p.block ∧ ¬ f.dashed <:+: p.data

theorem bare_eq (h : f.boundary.head? ≠ some SP) : f.bare = f.boundary := by
  have hsp : ∀ b ∈ f.boundary, isSpace b = true → b = SP := fun b hb => f.isSpace_boundary hb
  rw [bare]
  cases hb : f.boundary with
  | nil => rfl
  | cons b t =>
    rw [hb] at h hsp
    apply List.dropWhile_cons_of_neg
    intro hs
    exact h (congrArg some (hsp b List.mem_cons_self hs))

theorem Readable.roundTrips {f : Form} (h : f.Readable) (req : Request) : f.RoundTrips req := by
  rw [RoundTrips, f.parse_request, f.extractBoundary_read h.only h.last, if_neg f.bare_ne]
  by_cases hsp : f.boundary.head? = some SP
  · rcases h.flush with hflush | ⟨hnil, hall⟩
    · exact absurd hsp hflush
    · rw [hnil, parseBody_close (f.misread_spaces hsp), if_pos ((f.infix_close hsp).2 hall)]
      exact ⟨[], rfl, rfl⟩
  · rw [f.bare_eq hsp]
    refine ⟨_, parseBody_encode f.oneLine_dashed f.dashed_ne f.parts h.apart f.few, ?_⟩
    rw [List.map_map]
    apply List.map_congr_left
    intro p hp
    exact p.asPart_fields (h.unsplit p hp)

theorem sent_clean {out : List MultipartPart} (hout : ∀ r ∈ out, r.Clean ∧ ¬ e <:+: r.data)
    (hfields : out.map MultipartPart.fields = f.parts.map FormPart.fields) :
    ∀ p ∈ f.parts, p.Unsplit ∧ ¬ e <:+: p.data := by
  intro p hp
  have hm : p.fields ∈ out.map MultipartPart.fields := hfields ▸ List.mem_map.2 ⟨p, hp, rfl⟩
  obtain ⟨r, hr, heq⟩ := List.mem_map.1 hm
  obtain ⟨⟨hname, hfile⟩, hdata⟩ := hout r hr
  rw [MultipartPart.fields, FormPart.fields] at heq
  injection heq with hn heq
  injection heq with hf heq
  injection heq with _ hd
  rw [hn] at hname
  rw [hf] at hfile
  rw [hd] at hdata
  refine ⟨⟨hname, ?_⟩, hdata⟩
  intro g hg
  rw [Option.mem_def.1 hg] at hfile
  exact hfile

theorem RoundTrips.readable {f : Form} {req : Request} (h : f.RoundTrips req)
    (honly : ∀ t ∈ f.before, ¬ bytes "boundary=" <:+: t) : f.Readable := by
  obtain ⟨out, hparse, hfields⟩ := h
  rw [f.parse_request] at hparse
  split at hparse
  · cases hparse
  · have hne : dashes ++ extractBoundary f.contentType ≠ [] := List.append_ne_nil_of_left_ne_nil (by decide) _
    have hsent := f.sent_clean (parseBody_clean hne hparse) hfields
    have hdata : out.map MultipartPart.data = f.parts.map FormPart.data := by
      have hproj := congrArg (List.map fun x => x.2.2.2) hfields
      rw [List.map_map, List.map_map] at hproj
      exact hproj
    -- with another delimiter there cannot have been parts
    have hnone : Misread (dashes ++ extractBoundary f.contentType) f.dashed →
        f.parts = [] ∧ dashes ++ extractBoundary f.contentType <:+: f.dashed ++ dashes := by
      intro m
      have hparts : f.parts = [] := by
        apply Decidable.byContradiction
        intro hparts
        exact (parseBody_missed m f.parts (fun p hp => (hsent p hp).2) hparse).2 hparts hdata
      refine ⟨hparts, ?_⟩
      rw [hparts, parseBody_close m] at hparse
      split at hparse
      · assumption
      · cases hparse
    have hlast : f.quotes = true → f.after = [] := by
      intro hq
      apply Decidable.byContradiction
      intro hafter
      have hquote : quote ∈ extractBoundary f.contentType ∧ OneLine (extractBoundary f.contentType) := by
        rcases f.extractBoundary_misread honly hq hafter with hnil | hbare | hquoted
        · contradiction
        · rw [hbare]
          exact ⟨List.mem_append_right _ List.mem_cons_self, f.oneLine_bare.append (by decide)⟩
        · rw [hquoted]
          refine ⟨List.mem_cons_self, FormPart.oneLine_quoted ⟨?_, ?_⟩⟩
          · exact f.not_mem_boundary (by decide)
          · exact f.not_mem_boundary (by decide)
      have hin := (hnone (f.misread_quote hquote.2 hquote.1)).2
      have hm : quote ∈ f.dashed ++ dashes := hin.subset (List.mem_append_right _ hquote.1)
      rw [dashed, List.mem_append, List.mem_append] at hm
      rcases hm with (hm | hm) | hm
      · exact absurd hm (by decide)
      · exact absurd hm (f.not_mem_boundary (by decide))
      · exact absurd hm (by decide)
    have hread := f.extractBoundary_read honly hlast
    rw [hread] at hnone hparse hsent
    by_cases hsp : f.boundary.head? = some SP
    · obtain ⟨hparts, hin⟩ := hnone (f.misread_spaces hsp)
      have hvacuous : ∀ (P : FormPart → Prop), ∀ p ∈ f.parts, P p := by
        intro P p hp
        rw [hparts] at hp
        cases hp
      exact ⟨honly, hlast, .inr ⟨hparts, (f.infix_close hsp).1 hin⟩, hvacuous _, hvacuous _⟩
    · rw [f.bare_eq hsp] at hparse hsent
      have hblock := parseBody_apart f.oneLine_dashed f.dashed_ne f.parts (fun p hp => (hsent p hp).2) hparse
      exact ⟨honly, hlast, .inl hsp, fun p hp => (hsent p hp).1, fun p hp => ⟨hblock p hp, (hsent p hp).2⟩⟩

end Form

/-- A form comes back when its Content-Type has no earlier `boundary=`, a quoted boundary stands last, the
boundary does not begin with a space, no name has a semicolon and no header block and no data has the dashed
boundary. Without an earlier `boundary=` it is the only way, but for an empty form whose boundary is spaces
and dashes. -/
theorem parse_form (f : Form) (req : Request) :
    (f.Readable → f.RoundTrips req) ∧
      (f.RoundTrips req → f.Readable ∨ ∃ t ∈ f.before, bytes "boundary=" <:+: t) := by
  constructor
  · intro h
    exact h.roundTrips req
  · intro h
    by_cases hearlier : ∃ t ∈ f.before, bytes "boundary=" <:+: t
    · exact .inr hearlier
    · exact .inl (h.readable fun t ht hin => hearlier ⟨t, ht, hin⟩)

def semicolonForm : Form where
  boundary := bytes "b"
  quotes := false
  before := []
  after := []
  parts := [{
    name := bytes "a;b", filename := none, before := [], after := [], data := bytes "1",
    name_ok := ⟨by decide, by decide⟩, filename_ok := nofun, oneType := by decide }]
  legal := by
    intro b hb
    cases List.mem_singleton.1 hb
    decide
  size := by decide
  last := ⟨[], 98, rfl, by decide⟩
  few := by decide
  delimited := by decide

def upload : Request where
  method := .hPost
  target := bytes "/upload"
  httpVersionMinor := 1
  headers := []
  body := []
  keepAlive := true
  expectContinue := false
  upgradePreScanned := none
  params := []

theorem parse_semicolonForm :
    (parse (semicolonForm.request upload)).map (·.map MultipartPart.fields) =
      some [(quote :: bytes "a", [], [], bytes "1")] := by decide +kernel

/-- The name comes back as a quote and what is in front of the semicolon. -/
theorem semicolon_lost : ¬ semicolonForm.RoundTrips upload := by
  rintro ⟨parts, hparse, hfields⟩
  have hread := parse_semicolonForm
  rw [hparse, Option.map_some, hfields] at hread
  exact absurd hread (by decide)

end Hical.Multipart
