import Hical.Lib.Slots
import Hical.Router.Index

namespace Hical

/-- A view that shows some octets, or a default one that has no data. -/
abbrev StringView := Option Bytes

def StringView.str (v : StringView) : Bytes := v.getD []

def nextPow2 (x : Nat) : Nat :=
  if x = 0 then 1
  else
    let x := x - 1
    let x := x ||| x >>> 1
    let x := x ||| x >>> 2
    let x := x ||| x >>> 4
    let x := x ||| x >>> 8
    let x := x ||| x >>> 16
    let x := x ||| x >>> 32
    x + 1

/-- The halving loop; a 64-bit number is gone after 64 rounds. -/
def log2Loop : Nat → Nat → Nat → Nat
  | 0, _, r => r
  | rounds + 1, x, r => if x >>> 1 = 0 then r else log2Loop rounds (x >>> 1) (r + 1)

def log2Floor (x : Nat) : Nat := log2Loop 64 x 0

def hashPathMethod (path : Bytes) (method : HttpMethod) : UInt64 :=
  let h := path.foldl (fun (h : UInt64) c => ((h <<< 5) + h) + c.toUInt64) 5381
  let h := ((h <<< 5) + h) + UInt64.ofNat method.toNat
  let h := h ^^^ (h >>> 33)
  let h := h * 0xFF51AFD7ED558CCD
  h ^^^ (h >>> 33)

/-- The high bits of the wrapped product. -/
def hashSlot (h seed : UInt64) (shift : Nat) : Nat := ((h * seed) >>> UInt64.ofNat shift).toNat

namespace RuntimePerfectHashLookup

structure Entry where
  method : HttpMethod
  path : StringView
  index_ : Nat
  deriving DecidableEq, Repr

/-- A slot that no key was put into. -/
def Entry.blank : Entry := ⟨.hGet, none, 0⟩

def Entry.slot (e : Entry) (seed : UInt64) (shift : Nat) : Nat :=
  hashSlot (hashPathMethod e.path.str e.method) seed shift

end RuntimePerfectHashLookup

open RuntimePerfectHashLookup

structure RuntimePerfectHashLookup where
  keys : List Entry
  seed : UInt64
  shift : Nat
  entries : List Entry
  deriving DecidableEq, Repr

namespace RuntimePerfectHashLookup

def invalid : RuntimePerfectHashLookup := ⟨[], 0, 0, []⟩

def valid (t : RuntimePerfectHashLookup) : Bool := t.seed != 0

def keyCount (t : RuntimePerfectHashLookup) : Nat := t.keys.length

def ofKeys (keys : List Entry) (seed : UInt64) (shift : Nat) : RuntimePerfectHashLookup where
  keys := keys
  seed := seed
  shift := shift
  entries := Slots.fill (List.replicate (1 <<< (64 - shift)) .blank)
    (keys.map fun key => (key.slot seed shift, key))

def slot (t : RuntimePerfectHashLookup) (method : HttpMethod) (path : Bytes) : Nat :=
  hashSlot (hashPathMethod path method) t.seed t.shift

/-- The index of a key, or nothing where the source returns `SIZE_MAX`. -/
def lookup (t : RuntimePerfectHashLookup) (method : HttpMethod) (path : Bytes) : Option Nat :=
  if t.seed = 0 then none
  else match t.entries[t.slot method path]? with
    | none => none
    | some e =>
      if e.path.isSome ∧ e.method = method ∧ e.path.str = path then some e.index_ else none

/-- The candidate seeds from `cand` on, two apart. -/
def searchSeed (conflictFree : UInt64 → Bool) : Nat → UInt64 → Option UInt64
  | 0, _ => none
  | rounds + 1, cand =>
    if conflictFree cand then some cand else searchSeed conflictFree rounds (cand + 2)

def tableSize (N : Nat) : Nat := nextPow2 (if N > 1 then N + N / 2 else 2)

def conflictFree (hashes : List UInt64) (tableSize shift : Nat) (cand : UInt64) : Bool :=
  match Slots.claim (hashes.map (hashSlot · cand shift)) 0 (List.replicate tableSize none) with
  | .free _ => true
  | _ => false

def indexed (keys : List (HttpMethod × StringView)) : List Entry :=
  keys.zipIdx.map fun e => ⟨e.1.1, e.1.2, e.2⟩

def buildFromKeys (keys : List (HttpMethod × StringView)) : RuntimePerfectHashLookup :=
  if keys.isEmpty ∨ 256 < keys.length then invalid
  else
    let tableSize := tableSize keys.length
    let shift := 64 - log2Floor tableSize
    let hashes := keys.map fun key => hashPathMethod key.2.str key.1
    -- the candidates 1, 3, .., 99999
    match searchSeed (conflictFree hashes tableSize shift) 50000 1 with
    | some cand => ofKeys (indexed keys) cand shift
    | none => invalid

end RuntimePerfectHashLookup

section Exact
variable {keys : List (HttpMethod × StringView)} {t : RuntimePerfectHashLookup}

theorem hashSlot_lt {shift : Nat} (h seed : UInt64) (hlt : shift < 64) :
    hashSlot h seed shift < 2 ^ (64 - shift) := by
  have hshift : (UInt64.ofNat shift).toNat % 64 = shift := by
    have hwide : shift < 2 ^ 64 := Nat.lt_trans hlt (by decide)
    rw [UInt64.toNat_ofNat', Nat.mod_eq_of_lt hwide, Nat.mod_eq_of_lt hlt]
  rw [hashSlot, UInt64.toNat_shiftRight, hshift, Nat.shiftRight_eq_div_pow]
  apply Nat.div_lt_of_lt_mul
  rw [← Nat.pow_add, Nat.add_sub_cancel' (Nat.le_of_lt hlt)]
  exact UInt64.toNat_lt _

theorem tableSize_facts : ∀ N : Fin 257, N.val ≠ 0 →
    N.val ≤ tableSize N ∧ tableSize N = 2 ^ log2Floor (tableSize N) ∧
      0 < log2Floor (tableSize N) ∧ log2Floor (tableSize N) < 64 := by
  decide +kernel

theorem searchSeed_some {f : UInt64 → Bool} {seed : UInt64} (h : searchSeed f rounds cand = some seed)
    (hodd : cand.toNat % 2 = 1) : f seed = true ∧ seed.toNat % 2 = 1 := by
  induction rounds generalizing cand with
  | zero => cases h
  | succ rounds ih =>
    rw [searchSeed] at h
    split at h
    · next hf =>
      obtain rfl := Option.some.inj h
      exact ⟨hf, hodd⟩
    · apply ih h
      have hadd : (cand + 2).toNat = (cand.toNat + 2) % 2 ^ 64 := UInt64.toNat_add _ _
      omega

theorem mem_indexed {e : Entry} :
    e ∈ indexed keys ↔ keys[e.index_]? = some (e.method, e.path) := by
  rw [indexed, List.mem_map]
  constructor
  · rintro ⟨x, hx, rfl⟩
    exact List.mem_zipIdx_iff_getElem?.1 hx
  · intro h
    exact ⟨((e.method, e.path), e.index_), List.mem_zipIdx_iff_getElem?.2 h, rfl⟩

theorem indexed_slots (seed : UInt64) (shift : Nat) :
    (indexed keys).map (·.slot seed shift) =
      (keys.map fun key => hashPathMethod key.2.str key.1).map (hashSlot · seed shift) := by
  have hfst : keys = (keys.zipIdx).map Prod.fst := by
    rw [List.zipIdx_map_fst]
  rw [indexed, List.map_map]
  conv_rhs => rw [hfst, List.map_map, List.map_map]
  rfl

theorem conflictFree_iff {hashes : List UInt64} {size shift : Nat}
    (h : ∀ x ∈ hashes, hashSlot x cand shift < size) :
    conflictFree hashes size shift cand = true ↔
      (hashes.map (hashSlot · cand shift)).Nodup := by
  have hin : ∀ p ∈ hashes.map (hashSlot · cand shift),
      p < (List.replicate size (none : Option Nat)).length := by
    intro p hp
    obtain ⟨x, hx, rfl⟩ := List.mem_map.1 hp
    rw [List.length_replicate]
    exact h x hx
  have hfree := Slots.claim_free_iff (i := 0) hin
  have hempty : ∀ p ∈ hashes.map (hashSlot · cand shift),
      (List.replicate size (none : Option Nat))[p]? = some none := by
    intro p hp
    have := hin p hp
    rw [List.length_replicate] at this
    rw [List.getElem?_replicate, if_pos this]
  rw [conflictFree]
  constructor
  · intro hc
    split at hc
    · next taken hclaim => exact (hfree.1 ⟨taken, hclaim⟩).1
    · cases hc
  · intro hnodup
    obtain ⟨taken, hclaim⟩ := hfree.2 ⟨hnodup, hempty⟩
    rw [hclaim]

/-- A table in which every key has a slot of its own. -/
structure RuntimePerfectHashLookup.Built (keys : List (HttpMethod × StringView))
    (t : RuntimePerfectHashLookup) : Prop where
  keyed : t.keys = indexed keys
  seeded : t.seed ≠ 0
  size : t.entries.length = RuntimePerfectHashLookup.tableSize keys.length
  inside : ∀ (m : HttpMethod) (p : Bytes), t.slot m p < t.entries.length
  filled : ∀ e ∈ indexed keys, t.entries[t.slot e.method e.path.str]? = some e
  origin : ∀ (i : Nat) (e : Entry), t.entries[i]? = some e → e = .blank ∨ e ∈ indexed keys

theorem ofKeys_built {seed : UInt64} {shift : Nat} (hseed : seed ≠ 0) (hlt : shift < 64)
    (hsize : 2 ^ (64 - shift) = RuntimePerfectHashLookup.tableSize keys.length)
    (hnodup : ((indexed keys).map (·.slot seed shift)).Nodup) :
    (ofKeys (indexed keys) seed shift).Built keys := by
  have hlen : (ofKeys (indexed keys) seed shift).entries.length = 2 ^ (64 - shift) := by
    rw [ofKeys, Slots.fill_length, List.length_replicate, Nat.one_shiftLeft]
  refine ⟨rfl, hseed, hlen.trans hsize, fun m p => ?_, fun e he => ?_, fun i e he => ?_⟩
  · rw [hlen]
    exact hashSlot_lt _ _ hlt
  · apply Slots.fill_of_written (w := (e.slot seed shift, e))
    · rw [List.map_map]
      exact hnodup
    · exact List.mem_map_of_mem (f := fun key => (key.slot seed shift, key)) he
    · rw [List.length_replicate, Nat.one_shiftLeft]
      exact hashSlot_lt _ _ hlt
  · rw [ofKeys] at he
    dsimp only at he
    rcases Slots.fill_cases (List.replicate (1 <<< (64 - shift)) Entry.blank)
        ((indexed keys).map fun key => (key.slot seed shift, key)) i with hkept | ⟨w, hw, -, hval⟩
    · rw [hkept, List.getElem?_replicate] at he
      split at he
      · exact .inl (Option.some.inj he).symm
      · cases he
    · rw [hval] at he
      split at he
      · obtain ⟨key, hkey, rfl⟩ := List.mem_map.1 hw
        obtain rfl := Option.some.inj he
        exact .inr hkey
      · cases he

theorem buildFromKeys_built (h : (buildFromKeys keys).valid = true) :
    (buildFromKeys keys).Built keys := by
  have hinvalid : invalid.valid = false := rfl
  rw [buildFromKeys] at h ⊢
  split at h
  · rw [hinvalid] at h
    cases h
  · next hsized =>
    obtain ⟨hne, hle⟩ := not_or.1 hsized
    have hcount : keys.length ≠ 0 := fun h0 =>
      hne (List.isEmpty_iff.2 (List.eq_nil_of_length_eq_zero h0))
    rw [if_neg hsized]
    obtain ⟨-, hpow, hpos, hlog⟩ := tableSize_facts ⟨keys.length, by omega⟩ hcount
    dsimp only at hpow hpos hlog h ⊢
    have hback : 64 - (64 - log2Floor (RuntimePerfectHashLookup.tableSize keys.length)) =
        log2Floor (RuntimePerfectHashLookup.tableSize keys.length) := by omega
    cases hcand : searchSeed (conflictFree (keys.map fun key => hashPathMethod key.2.str key.1)
        (RuntimePerfectHashLookup.tableSize keys.length)
        (64 - log2Floor (RuntimePerfectHashLookup.tableSize keys.length))) 50000 1 with
    | none =>
      simp only [hcand, hinvalid] at h
      cases h
    | some cand =>
      have hodd := searchSeed_some hcand rfl
      apply ofKeys_built
      · intro hzero
        rw [hzero] at hodd
        cases hodd.2
      · omega
      · rw [hback]
        exact hpow.symm
      · rw [indexed_slots]
        apply (conflictFree_iff ?_).1 hodd.1
        intro x _
        apply Nat.lt_of_lt_of_eq (hashSlot_lt x _ (by omega))
        rw [hback]
        exact hpow.symm

theorem RuntimePerfectHashLookup.Built.lookup_some (h : t.Built keys)
    (hl : t.lookup m p = some i) :
    ∃ view : StringView, keys[i]? = some (m, view) ∧ view.str = p ∧ view.isSome = true := by
  rw [lookup, if_neg h.seeded] at hl
  split at hl
  · cases hl
  · next e he =>
    split at hl
    · next hmatch =>
      obtain ⟨hsome, rfl, rfl⟩ := hmatch
      obtain rfl := Option.some.inj hl
      rcases h.origin _ _ he with rfl | hmem
      · cases hsome
      · exact ⟨e.path, mem_indexed.1 hmem, rfl, hsome⟩
    · cases hl

theorem RuntimePerfectHashLookup.Built.lookup_key (h : t.Built keys) {view : StringView}
    (hk : keys[i]? = some (m, view)) :
    t.lookup m view.str = if view.isSome then some i else none := by
  have hmem : (⟨m, view, i⟩ : Entry) ∈ indexed keys := mem_indexed.2 hk
  rw [lookup, if_neg h.seeded, h.filled _ hmem]
  simp only [and_self, and_true]

end Exact

end Hical
