import Hical.Lib.JsonText

namespace Json

/-- The bytes that a byte of a string takes at least. -/
def byteSize (c : UInt8) : Nat := if plain c then 1 else 2

def textSize (s : List UInt8) : Nat := (s.map byteSize).sum

theorem textSize_append (s t : List UInt8) : textSize (s ++ t) = textSize s + textSize t := by
  rw [textSize, List.map_append, List.sum_append]
  rfl

theorem textSize_cons (c : UInt8) (s : List UInt8) : textSize (c :: s) = byteSize c + textSize s := by
  rw [textSize, List.map_cons, List.sum_cons]
  rfl

theorem length_le_textSize (s : List UInt8) : s.length ≤ textSize s := by
  induction s with
  | nil => exact Nat.zero_le _
  | cons c s ih =>
    rw [textSize_cons, byteSize, List.length_cons]
    split <;> omega

theorem textSize_eq_length_iff (s : List UInt8) : textSize s = s.length ↔ s.all plain = true := by
  induction s with
  | nil => exact ⟨fun _ => rfl, fun _ => rfl⟩
  | cons c s ih =>
    have hle := length_le_textSize s
    rw [textSize_cons, byteSize, List.length_cons, List.all_cons, Bool.and_eq_true, ← ih]
    split
    · next hc => exact ⟨fun h => ⟨hc, by omega⟩, fun h => by omega⟩
    · next hc => exact ⟨fun h => by omega, fun h => absurd h.1 hc⟩

mutual

/-- The bytes that a tree takes at least. -/
def Tree.size : Doc → Nat
  | .null => 4
  | .bool true => 4
  | .bool false => 5
  | .number l => l.1.length
  | .string s => textSize s + 2
  | .array xs => sizes xs + 1 + if xs.isEmpty then 1 else 0
  | .object ms => memberSizes ms + 1 + if ms.isEmpty then 1 else 0

/-- The elements, each with the comma or the bracket behind it. -/
def sizes : List Doc → Nat
  | [] => 0
  | x :: xs => x.size + 1 + sizes xs

def memberSizes : List (List UInt8 × Doc) → Nat
  | [] => 0
  | (k, x) :: ms => textSize k + 3 + x.size + 1 + memberSizes ms

end

section Reading

theorem skipWs_length (s : List UInt8) : (skipWs s).length ≤ s.length :=
  (List.dropWhile_sublist isWs).length_le

theorem expect_length (h : expect c s = some t) : t.length + 1 ≤ s.length := by
  have hle := skipWs_length s
  rw [expect] at h
  split at h
  · cases h
  · next b u hs =>
    rw [hs, List.length_cons] at hle
    split at h
    · cases h
      exact hle
    · cases h

theorem codeUnit_lt (h : codeUnit a b c d = some n) : n < 0x10000 := by
  have hlt (c : UInt8) (n : Nat) (h : hexValue c = some n) : n < 16 := by
    rw [hexValue] at h
    have := c.toNat_lt
    split at h
    · next hc => cases h; have := UInt8.le_iff_toNat_le.1 hc.2; simp at this; omega
    · split at h
      · next hc => cases h; have := UInt8.le_iff_toNat_le.1 hc.2; simp at this; omega
      · split at h
        · next hc => cases h; have := UInt8.le_iff_toNat_le.1 hc.2; simp at this; omega
        · cases h
  simp only [codeUnit, Option.bind_eq_bind, Option.bind_eq_some_iff, Option.pure_def, Option.some.injEq] at h
  obtain ⟨x, hx, y, hy, z, hz, w, hw, rfl⟩ := h
  have := hlt _ _ hx
  have := hlt _ _ hy
  have := hlt _ _ hz
  have := hlt _ _ hw
  omega

theorem byteSize_le (c : UInt8) : byteSize c ≤ 2 := by
  rw [byteSize]
  split <;> omega

theorem textSize_le (s : List UInt8) : textSize s ≤ 2 * s.length := by
  induction s with
  | nil => exact Nat.zero_le _
  | cons c s ih =>
    have hc := byteSize_le c
    rw [textSize_cons, List.length_cons]
    omega

theorem utf8_length (n : Nat) : (utf8 n).length ≤ 4 ∧ (n < 0x10000 → (utf8 n).length ≤ 3) := by
  rw [utf8]
  split
  · exact ⟨Nat.le_of_ble_eq_true rfl, fun _ => Nat.le_of_ble_eq_true rfl⟩
  · split
    · exact ⟨Nat.le_of_ble_eq_true rfl, fun _ => Nat.le_of_ble_eq_true rfl⟩
    · split
      · exact ⟨Nat.le_of_ble_eq_true rfl, fun _ => Nat.le_of_ble_eq_true rfl⟩
      · next h => exact ⟨Nat.le_of_ble_eq_true rfl, fun hn => absurd hn h⟩

theorem map_fst {f : α → β} {o : Option (α × γ)} (h : (o.map fun p => (f p.1, p.2)) = some (t, rest)) :
    ∃ a, o = some (a, rest) ∧ f a = t := by
  obtain ⟨⟨a, r⟩, ho, heq⟩ := Option.map_eq_some_iff.1 h
  injection heq with hf hr
  exact ⟨a, hr ▸ ho, hf⟩

theorem chars_size (s : List UInt8) (h : chars s = some (t, rest)) : textSize t + 1 + rest.length ≤ s.length := by
  fun_induction chars s generalizing t rest with
  | case2 s =>
    cases h
    exact Nat.le_of_eq (Nat.add_comm ..)
  | case7 h₁ h₂ h₃ h₄ n hn hhigh b u l₁ l₂ l₃ l₄ s m hm hlow _ _ ih =>
    obtain ⟨t', hp, rfl⟩ := map_fst h
    have hs := ih hp
    have hlen := (utf8_length (0x10000 + (n - 0xD800) * 0x400 + (m - 0xDC00))).1
    have htext := textSize_le (utf8 (0x10000 + (n - 0xD800) * 0x400 + (m - 0xDC00)))
    rw [textSize_append]
    simp only [List.length_cons]
    omega
  | case11 h₁ h₂ h₃ h₄ s n hn _ _ _ _ ih =>
    obtain ⟨t', hp, rfl⟩ := map_fst h
    have hs := ih hp
    have hlen := (utf8_length n).2 (codeUnit_lt hn)
    have htext := textSize_le (utf8 n)
    rw [textSize_append]
    simp only [List.length_cons]
    omega
  | case14 b s hu x hx _ _ ih =>
    obtain ⟨t', hp, rfl⟩ := map_fst h
    have hs := ih hp
    have hx : byteSize x ≤ 2 := byteSize_le x
    rw [textSize_cons]
    simp only [List.length_cons]
    omega
  | case15 b s hquote hlow hback ih =>
    obtain ⟨t', hp, rfl⟩ := map_fst h
    have hs := ih hp
    have hplain : plain b = true := by
      simp only [plain, bne_iff_ne, ne_eq, Bool.and_eq_true, decide_eq_true_eq]
      exact ⟨⟨hquote, hback⟩, UInt8.not_lt.1 hlow⟩
    rw [textSize_cons, byteSize, if_pos hplain, List.length_cons]
    omega
  | _ => cases h

theorem number_size (h : number s = some (t, rest)) : t.size + rest.length ≤ s.length := by
  rw [number] at h
  split at h
  · cases h
    have hlen := congrArg List.length (List.takeWhile_append_dropWhile (p := numeric) (l := s))
    rw [List.length_append] at hlen
    exact Nat.le_of_eq hlen
  · cases h

theorem literal_length (h : literal word t s = some (u, rest)) : u = t ∧ word.length + rest.length ≤ s.length := by
  rw [literal] at h
  split at h
  · next hp =>
    cases h
    obtain ⟨r, rfl⟩ := List.isPrefixOf_iff_prefix.1 hp
    rw [List.drop_left, List.length_append]
    exact ⟨rfl, Nat.le_refl _⟩
  · cases h

theorem read_size (n : Nat) :
    (∀ s t rest, value n s = some (t, rest) → t.size + rest.length ≤ s.length) ∧
    (∀ s xs rest, elements n s = some (xs, rest) → xs ≠ [] ∧ sizes xs + rest.length ≤ s.length) ∧
    (∀ s ms rest, members n s = some (ms, rest) → ms ≠ [] ∧ memberSizes ms + rest.length ≤ s.length) := by
  induction n with
  | zero =>
    refine ⟨?_, ?_, ?_⟩
    · intro s t rest h
      cases h
    · intro s t rest h
      cases h
    · intro s t rest h
      cases h
  | succ n ih =>
    obtain ⟨hvalue, helements, hmembers⟩ := ih
    refine ⟨?_, ?_, ?_⟩
    · intro s t rest h
      have hws := skipWs_length s
      rw [value] at h
      split at h
      · cases h
      · next c s' hs =>
        rw [hs, List.length_cons] at hws
        split at h
        · obtain ⟨u, hp, rfl⟩ := map_fst h
          have := chars_size _ hp
          simp only [Tree.size]
          omega
        split at h
        · split at h
          · next r hr =>
            cases h
            have := expect_length hr
            simp [Tree.size, sizes]
            omega
          · obtain ⟨xs, hp, rfl⟩ := map_fst h
            obtain ⟨hne, hsize⟩ := helements _ _ _ hp
            simp [Tree.size, hne]
            omega
        split at h
        · split at h
          · next r hr =>
            cases h
            have := expect_length hr
            simp [Tree.size, memberSizes]
            omega
          · obtain ⟨ms, hp, rfl⟩ := map_fst h
            obtain ⟨hne, hsize⟩ := hmembers _ _ _ hp
            simp [Tree.size, hne]
            omega
        split at h
        · obtain ⟨rfl, hlen⟩ := literal_length h
          simp [Tree.size] at hlen ⊢
          omega
        split at h
        · obtain ⟨rfl, hlen⟩ := literal_length h
          simp [Tree.size] at hlen ⊢
          omega
        split at h
        · obtain ⟨rfl, hlen⟩ := literal_length h
          simp [Tree.size] at hlen ⊢
          omega
        · have := number_size h
          rw [List.length_cons] at this
          omega
    · intro s xs rest h
      rw [elements] at h
      split at h
      · cases h
      · next x s' hx =>
        have hsize := hvalue _ _ _ hx
        split at h
        · next r hr =>
          obtain ⟨ys, hp, rfl⟩ := map_fst h
          have := expect_length hr
          have := (helements _ _ _ hp).2
          refine ⟨List.cons_ne_nil _ _, ?_⟩
          simp only [sizes]
          omega
        · obtain ⟨r, hr, heq⟩ := Option.map_eq_some_iff.1 h
          cases heq
          have := expect_length hr
          refine ⟨List.cons_ne_nil _ _, ?_⟩
          simp only [sizes]
          omega
    · intro s ms rest h
      rw [members] at h
      split at h
      · cases h
      · next k s' hk =>
        obtain ⟨q, hq, hchars⟩ := Option.bind_eq_some_iff.1 hk
        have := expect_length hq
        have := chars_size _ hchars
        split at h
        · cases h
        · next x r hx =>
          obtain ⟨v, hv, hx⟩ := Option.bind_eq_some_iff.1 hx
          have := expect_length hv
          have hsize := hvalue _ _ _ hx
          split at h
          · next r' hr =>
            obtain ⟨ms', hp, rfl⟩ := map_fst h
            have := expect_length hr
            have := (hmembers _ _ _ hp).2
            refine ⟨List.cons_ne_nil _ _, ?_⟩
            simp only [memberSizes]
            omega
          · obtain ⟨r', hr, heq⟩ := Option.map_eq_some_iff.1 h
            cases heq
            have := expect_length hr
            refine ⟨List.cons_ne_nil _ _, ?_⟩
            simp only [memberSizes]
            omega

theorem parse_size (h : parse s = some t) : t.size ≤ s.length := by
  rw [parse] at h
  split at h
  · cases h
  · next u rest hv =>
    split at h
    · cases h
      have := (read_size _).1 _ _ _ hv
      omega
    · cases h

end Reading

end Json
