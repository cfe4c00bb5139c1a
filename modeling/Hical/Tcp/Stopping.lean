import Hical.Lib.Runs
import Hical.Tcp.Accounting

namespace Hical.Tcp
open Ledger

namespace TcpServer
variable {s s' : TcpServer} {k l : Nat}

def settled (s : TcpServer) (shard : Nat) : Bool :=
  ((s.shards[shard]?).getD []).all fun k =>
    (s.peers[k]?).all fun p => decide (p.conn.state = .hConnected)

/-- The steps that keep the accounts. -/
def kept (s : TcpServer) : Label → Bool
  | .accept loop => decide (loop ≠ 0) || decide (s.cleaned = 0)
  | .register n => (s.posted[n]?).all fun loop => decide (s.cleaned ≤ loop)
  | .conn k label => (s.peers[k]?).all fun p => p.conn.stores label
  | .proceed =>
    match s.stop with
    | .cleaning shard => s.settled shard
    | _ => true
  | _ => true

def keptRun (s : TcpServer) : List Label → Bool
  | [] => true
  | label :: labels => s.kept label && match s.step label with
      | some s' => keptRun s' labels
      | none => true

theorem Tidy.clean (h : Tidy s) (hstop : s.stop = .cleaning k) (hlt : k < s.shards.length)
    (hset : s.settled k = true) : Tidy { s.clean k with stop := .cleaning (k + 1) } := by
  obtain ⟨set, hk⟩ : ∃ set, s.shards[k]? = some set := ⟨_, List.getElem?_eq_getElem hlt⟩
  obtain ⟨hnd, hmem⟩ := h.shard k set hk
  have hids : ∀ j ∈ set, ∃ p, s.peers[j]? = some p ∧ p.conn.state = .hConnected := by
    intro j hj
    obtain ⟨p, hp, -⟩ := (hmem j).1 hj
    rw [settled, hk, Option.getD_some, List.all_eq_true] at hset
    have hall := hset j hj
    rw [hp] at hall
    exact ⟨p, hp, of_decide_eq_true hall⟩
  obtain ⟨ht, hs, hw, ho⟩ := h.closeAll set hids hnd
  have hnone : ∀ j, ¬ (set.foldl closeConnection s).On k j := by
    intro j hj
    obtain ⟨hon, hnin⟩ := ho k j hj
    exact hnin ((hmem j).2 hon)
  have hrun : (set.foldl closeConnection s).stop ≠ .returned := by
    rw [hs, hstop]
    exact Stop.noConfusion
  have hlength : (set.foldl closeConnection s).shards.length = s.shards.length := by
    rw [ht.length hrun, hw]
    refine (h.length ?_).symm
    rw [hstop]
    exact Stop.noConfusion
  obtain ⟨set', hk'⟩ : ∃ set', (set.foldl closeConnection s).shards[k]? = some set' :=
    ⟨_, List.getElem?_eq_getElem (hlength ▸ hlt)⟩
  have hempty : set' = [] := List.eq_nil_iff_forall_not_mem.2 fun j hj =>
    hnone j (((ht.shard k set' hk').2 j).1 hj)
  have hsame : (set.foldl closeConnection s).shards.set k [] =
      (set.foldl closeConnection s).shards := set_self (hempty ▸ hk')
  have hclean : s.clean k = set.foldl closeConnection s := by
    rw [TcpServer.clean, hk, Option.getD_some, hsame]
  rw [hclean]
  refine { ht with cleaned := ?_, length := ?_, returned := (nomatch ·) }
  · intro l j hj
    have hle := ht.cleaned l j hj
    rw [TcpServer.cleaned, hs, hstop] at hle
    have hne : k ≠ l := by
      rintro rfl
      exact hnone j hj
    exact Nat.lt_of_le_of_ne hle hne
  · exact fun _ => ht.length hrun

theorem Tidy.empty (h : Tidy s) (hc : s.shards.length ≤ s.cleaned) :
    s.totalConnections = 0 ∧ ∀ l j, ¬ s.On l j := by
  have hnone : ∀ l j, ¬ s.On l j := by
    intro l j ho
    have hlt := h.covered l j ho
    have hle := h.cleaned l j ho
    omega
  refine ⟨?_, hnone⟩
  rw [h.total]
  refine total_eq_zero fun set hset => ?_
  obtain ⟨l, hl⟩ := List.getElem?_of_mem hset
  refine List.length_eq_zero_iff.2 (List.eq_nil_iff_forall_not_mem.2 fun j hj => ?_)
  exact hnone l j (((h.shard l set hl).2 j).1 hj)

theorem Tidy.proceed (h : Tidy s) (hk : s.kept .proceed = true) (hs : s.proceed = some s') :
    Tidy s' := by
  rw [TcpServer.proceed.eq_def] at hs
  split at hs
  · next hstop =>
    cases hs
    refine { h with
      cleaned := fun _ _ _ => Nat.zero_le _, length := fun _ => h.length ?_, returned := fun hr => by cases hr }
    rw [hstop]
    exact Stop.noConfusion
  · next shard hstop =>
    have hrun : s.stop ≠ .returned := by
      rw [hstop]
      exact Stop.noConfusion
    split at hs
    · next hlt =>
      cases hs
      rw [kept, hstop] at hk
      exact h.clean hstop hlt hk
    · next hge =>
      cases hs
      have hall : s.shards.length ≤ s.cleaned := by
        rw [TcpServer.cleaned, hstop]
        exact Nat.le_of_not_lt hge
      obtain ⟨hzero, hnone⟩ := h.empty hall
      exact { h with
        total := hzero.symm.trans h.total
        cleaned := fun l j ho => absurd ho (hnone l j)
        length := fun _ => h.length hrun
        returned := fun hr => by cases hr }
  · next hstop =>
    split at hs
    · cases hs
      refine { h with cleaned := fun l j ho => ?_, length := fun _ => h.length ?_, returned := fun hr => by cases hr }
      · have hle := h.cleaned l j ho
        rw [TcpServer.cleaned, hstop] at hle
        exact hle
      · rw [hstop]
        exact Stop.noConfusion
    · cases hs
  · next hstop =>
    cases hs
    have hall : s.shards.length ≤ s.cleaned := by
      refine Nat.le_of_eq ?_
      rw [TcpServer.cleaned, hstop, h.length (by rw [hstop]; exact Stop.noConfusion)]
    obtain ⟨hzero, hnone⟩ := h.empty hall
    exact { h with
      total := hzero
      shard := fun _ _ hset => by cases hset
      covered := fun l j ho => absurd ho (hnone l j)
      cleaned := fun l j ho => absurd ho (hnone l j)
      length := fun hr => absurd rfl hr
      returned := fun _ => rfl }
  · cases hs

theorem posted_addConnection (s : TcpServer) (loop : Nat) :
    (s.addConnection loop).posted = s.posted := by
  rw [addConnection, editShard]
  dsimp only
  split <;> rfl

theorem Tidy.step (h : Tidy s) {label : Label} (hk : s.kept label = true)
    (hs : s.step label = some s') : Tidy s' := by
  cases label with
  | acceptLoop | acceptError | acceptAborted =>
    obtain ⟨-, rfl⟩ := Option.ite_some_none_eq_some.1 hs
    exact { h with }
  | accept loop =>
    rw [TcpServer.step] at hs
    split at hs
    · next hacc =>
      split at hs
      · next hzero =>
        cases hs
        subst hzero
        have hc : s.cleaned = 0 := by simpa [kept] using hk
        have hadd := h.add (Nat.zero_le _) (Nat.le_of_eq hc)
        exact { hadd with }
      · next hne =>
        cases hs
        refine { h with posted := fun l hl => ?_ }
        rcases List.mem_append.1 hl with hl | hl
        · exact h.posted l hl
        · rw [List.mem_singleton.1 hl]
          have ht := hacc.2
          rw [targets] at ht
          split at ht
          · exact absurd (of_decide_eq_true ht) hne
          · exact (of_decide_eq_true ht).2
    · cases hs
  | register n =>
    obtain ⟨loop, hn, rfl⟩ := Option.map_eq_some_iff.1 hs
    rw [kept, hn] at hk
    have hadd := h.add (h.posted loop (List.mem_of_getElem? hn)) (of_decide_eq_true hk)
    refine { hadd with posted := fun l hl => hadd.posted l ?_ }
    rw [posted_addConnection]
    exact List.mem_of_mem_eraseIdx hl
  | conn k label =>
    rw [TcpServer.step] at hs
    split at hs
    · next hd =>
      obtain ⟨p, hp, hs⟩ := Option.bind_eq_some_iff.1 hs
      obtain ⟨conn, hc, rfl⟩ := Option.map_eq_some_iff.1 hs
      rw [kept, hp] at hk
      exact h.put hp ((h.counted p (List.mem_of_getElem? hp)).step hd hk hc)
    · cases hs
  | stop =>
    rw [TcpServer.step] at hs
    split at hs
    · next hr =>
      cases hs
      refine { h with
        cleaned := fun _ _ _ => Nat.zero_le _, length := fun _ => h.length ?_, returned := (nomatch ·) }
      rw [hr.2]
      exact Stop.noConfusion
    · cases hs
      exact h
  | proceed => exact h.proceed hk hs

theorem tidy_start (workers : Nat) (tls : Bool) : Tidy (start workers tls) := by
  have hnone : ∀ l k, ¬ (start workers tls).On l k := by
    rintro l k ⟨p, hp, -⟩
    cases hp
  refine ⟨?_, ?_, fun p hp => (nomatch hp), fun l k ho => absurd ho (hnone l k),
    fun l k ho => absurd ho (hnone l k), fun l hl => (nomatch hl), fun _ => List.length_replicate ..,
    (nomatch ·), rfl, rfl⟩
  · refine (total_eq_zero fun set hset => ?_).symm
    rw [List.eq_of_mem_replicate hset]
    rfl
  · intro l set hset
    have hempty : set = [] := List.eq_of_mem_replicate (List.mem_of_getElem? hset)
    subst hempty
    exact ⟨List.nodup_nil, fun k => ⟨(nomatch ·), fun ho => absurd ho (hnone l k)⟩⟩

theorem tidy_run (h : Tidy s) {labels : List Label} (hk : s.keptRun labels = true)
    (hr : s.run labels = some s') : Tidy s' := by
  refine (Runs.accepted (P := fun s labels => Tidy s ∧ s.keptRun labels = true) ?_ ⟨h, hk⟩ hr).1
  rintro s label s' labels ⟨h, hk⟩ hs
  rw [keptRun, hs, Bool.and_eq_true] at hk
  exact ⟨h.step hk.1 hs, hk.2⟩

/-- What the accounts promise. -/
structure Accounts (s : TcpServer) : Prop where
  total : s.totalConnections = Ledger.total List.length s.shards
  shard : ∀ (l : Nat) set, s.shards[l]? = some set → set.Nodup ∧ ∀ k, k ∈ set ↔ s.On l k
  once : ∀ p ∈ s.peers, p.conn.closes ≤ 1
  wrapped : s.wrapped = false
  touched : s.touched = false
  returned : s.stop = .returned → s.totalConnections = 0

/-- In a run whose steps all keep them, the accounts hold in every state. -/
theorem accounts_hold (workers : Nat) (tls : Bool) (labels : List Label)
    (hk : (start workers tls).keptRun labels = true)
    (hr : (start workers tls).run labels = some s) : s.Accounts := by
  have h := tidy_run (tidy_start workers tls) hk hr
  refine ⟨h.total, h.shard, fun p hp => ?_, h.wrapped, h.touched, fun hs => ?_⟩
  · have hc := h.counted p hp
    by_cases hd : p.conn.state = .hDisconnected
    · exact Nat.le_of_eq (hc.ended hd)
    · rw [hc.live hd]
      exact Nat.zero_le _
  · rw [h.total, h.returned hs]
    rfl

/-- A call of `stop` in all its steps, with one shard. -/
def stopCall : List Label := .stop :: List.replicate 5 .proceed

def threeConnections : List Label :=
  [.acceptLoop, .accept 1, .acceptLoop, .accept 2, .acceptLoop, .accept 1, .register 0, .register 0, .register 0,
    .conn 0 (.readLoop .data), .conn 1 (.readLoop .data), .conn 2 (.readLoop .data), .conn 0 .peerEnd,
    .conn 0 (.readLoop .eof), .stop, .acceptLoop] ++ List.replicate 5 .proceed ++
    [.conn 1 (.readLoop .aborted), .conn 2 (.readLoop .aborted), .proceed, .proceed]

theorem accounts_hold_threeConnections :
    (∃ s, (start 2 false).run (threeConnections.take 14) = some s ∧ s.shards = [[], [2], [1]] ∧ s.Accounts) ∧
      ∃ s, (start 2 false).run threeConnections = some s ∧ s.stop = .returned ∧ s.Accounts :=
  ⟨⟨_, rfl, rfl, accounts_hold 2 false (threeConnections.take 14) rfl rfl⟩,
    _, rfl, rfl, accounts_hold 2 false threeConnections rfl rfl⟩

/-- The server stops behind a call of `shutdown`, and the peer ends its stream. -/
def shutdownThenStop : List Label :=
  [.acceptLoop, .accept 0, .conn 0 (.readLoop .data), .conn 0 .shutdown] ++
    List.replicate 3 (.conn 0 (.shutdownStep 0)) ++ stopCall ++
    [.conn 0 .peerEnd, .conn 0 (.readLoop .eof)]

/-- A socket was accepted before the server stops, and its completion runs behind that. -/
def lateAccept : List Label := .acceptLoop :: stopCall ++ [.accept 0]

theorem accounts_broken :
    (∃ s, (start 0 false).run shutdownThenStop = some s ∧ s.stop = .returned ∧
      s.totalConnections = 2 ^ 64 - 1 ∧ s.wrapped = true ∧ s.touched = true) ∧
    ∃ s, (start 0 false).run lateAccept = some s ∧ s.stop = .returned ∧ s.totalConnections = 1 ∧
      s.touched = true :=
  ⟨⟨_, rfl, rfl, rfl, rfl, rfl⟩, _, rfl, rfl, rfl, rfl⟩

end TcpServer

end Hical.Tcp
