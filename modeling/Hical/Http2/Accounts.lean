import Hical.Http2.Conservation

namespace Hical.Http2
open Ledger

/-- What a connection may ask its budget for. -/
inductive Request where
  | protocolStream (peerLimit : UInt32)
  | applicationTask
  | receive (bytes : Nat)
  | send (bytes : Nat)

def Http2Budget.tryAcquire (h : Http2Budget) (b : Budgets) : Request → Budgets × Lease
  | .protocolStream peerLimit => h.tryAcquireProtocolStream b peerLimit
  | .applicationTask => h.tryAcquireApplicationTask b
  | .receive bytes => h.tryAcquireReceive b bytes
  | .send bytes => h.tryAcquireSend b bytes

/-- All objects of a program that uses budgets. The shared states stay when the objects that made
them are gone. -/
structure Accounts where
  shared : Budgets := {}
  services : List Nat := []
  budgets : List Http2Budget := []
  leases : List Lease := []

/-- What a program can do to its budgets and leases; objects are named by their position. -/
inductive BudgetOp where
  | newService (maxTasks : UInt64)
  | dropService (i : Nat)
  | newBudget (role : Role) (options : Http2Options) (service : Option Nat)
  | copyBudget (i : Nat)
  | dropBudget (i : Nat)
  | tryAcquire (i : Nat) (request : Request)
  | tryResize (i bytes : Nat)
  | moveConstruct (source : Nat)
  | moveAssign (target source : Nat)
  | reset (i : Nat)
  | destroy (i : Nat)

namespace Accounts

def newBudget (a : Accounts) (role : Role) (options : Http2Options) (service : Option Nat) :
    Accounts :=
  match a.shared.newBudget role options service with
  | .error _ => a
  | .ok (b, h) => { a with shared := b, budgets := a.budgets ++ [h] }

def reset (a : Accounts) (i : Nat) : Accounts :=
  match a.leases[i]? with
  | none => a
  | some l =>
    let (b, l') := a.shared.reset l
    { a with shared := b, leases := a.leases.set i l' }

/-- The move of one lease into the place of another that holds nothing. -/
def transfer (a : Accounts) (target source : Nat) : Accounts :=
  match a.leases[source]? with
  | none => a
  | some l => { a with leases := (a.leases.set source l.moved.2).set target l.moved.1 }

def step (a : Accounts) : BudgetOp → Accounts
  | .newService maxTasks =>
    match a.shared.newService maxTasks with
    | .error _ => a
    | .ok (b, k) => { a with shared := b, services := a.services ++ [k] }
  | .dropService i => { a with services := a.services.eraseIdx i }
  | .newBudget role options none => a.newBudget role options none
  | .newBudget role options (some i) =>
    match a.services[i]? with
    | none => a
    | some k => a.newBudget role options (some k)
  | .copyBudget i => { a with budgets := a.budgets ++ a.budgets[i]?.toList }
  | .dropBudget i => { a with budgets := a.budgets.eraseIdx i }
  | .tryAcquire i request =>
    match a.budgets[i]? with
    | none => a
    | some h =>
      let (b, l) := h.tryAcquire a.shared request
      { a with shared := b, leases := a.leases ++ [l] }
  | .tryResize i bytes =>
    match a.leases[i]? with
    | none => a
    | some l =>
      let (b, l', _) := a.shared.tryResize l bytes
      { a with shared := b, leases := a.leases.set i l' }
  | .moveConstruct source =>
    if source < a.leases.length then
      transfer { a with leases := a.leases ++ [{}] } a.leases.length source
    else a
  | .moveAssign target source =>
    -- a lease that is moved to itself is left alone
    if source ≠ target ∧ source < a.leases.length ∧ target < a.leases.length then
      (a.reset target).transfer target source
    else a
  | .reset i => a.reset i
  | .destroy i => { a.reset i with leases := (a.reset i).leases.eraseIdx i }

def run (ops : List BudgetOp) : Accounts := ops.foldl step {}

/-- The counters agree with the leases, and all objects are of states that exist. -/
structure Ok (a : Accounts) : Prop where
  conserved : Conserved a.shared a.leases
  services : ∀ k ∈ a.services, k < a.shared.serviceCount
  budgets : ∀ h ∈ a.budgets, h.state < a.shared.stateCount

theorem ok_empty : Ok {} where
  conserved := {
    used := fun _ _ => rfl
    within := fun _ _ => Nat.le_refl _
    small := fun _ _ => Nat.two_pow_pos 64
    streamSmall := fun _ => Nat.two_pow_pos 64
    served := fun _ => rfl
    servedWithin := fun _ => Nat.le_refl _
    servedSmall := fun _ => Nat.two_pow_pos 64
    known := nofun
    leases := nofun
    safe := rfl }
  services := nofun
  budgets := nofun

variable {a : Accounts}

theorem Ok.of_alike (h : Ok a) (ha : Alike a.shared b) (hc : Conserved b ls) :
    Ok { a with shared := b, leases := ls } where
  conserved := hc
  services k hk := by
    dsimp only
    rw [ha.services]
    exact h.services k hk
  budgets x hx := by
    dsimp only
    rw [ha.states]
    exact h.budgets x hx

theorem Ok.tryAcquire (h : Ok a) (hx : x ∈ a.budgets) (request : Request)
    (hr : x.tryAcquire a.shared request = (b, l)) :
    Conserved b (a.leases ++ [l]) ∧ Alike a.shared b ∧ (l.state = none → b = a.shared) := by
  have hc := h.budgets x hx
  cases request with
  | protocolStream peerLimit =>
    rw [Http2Budget.tryAcquire, Http2Budget.tryAcquireProtocolStream] at hr
    split at hr
    · cases hr
      exact ⟨h.conserved.append_empty rfl (Lease.valid_empty _), .rfl _, fun _ => rfl⟩
    · exact h.conserved.acquire hc rfl (fun _ => rfl) hr
  | applicationTask => exact h.conserved.acquire (r := .hApplicationTask) hc rfl (fun _ => rfl) hr
  | receive bytes => exact h.conserved.acquire (r := .hReceiveBytes) hc rfl nofun hr
  | send bytes => exact h.conserved.acquire (r := .hSendBytes) hc rfl nofun hr

theorem Ok.reset (h : Ok a) (i : Nat) : Ok (a.reset i) := by
  rw [Accounts.reset]
  split
  · exact h
  · next l hi =>
    obtain ⟨hc, ha, -⟩ := h.conserved.reset hi rfl
    exact h.of_alike ha hc

theorem reset_none (h : Ok a) (hi : i < a.leases.length) :
    ∃ l, (a.reset i).leases[i]? = some l ∧ l.state = none := by
  have hl := List.getElem?_eq_getElem hi
  rw [Accounts.reset, hl]
  refine ⟨_, List.getElem?_set_self hi, ?_⟩
  exact (h.conserved.reset hl rfl).2.2

theorem reset_length (a : Accounts) (i : Nat) : (a.reset i).leases.length = a.leases.length := by
  rw [Accounts.reset]
  split
  · rfl
  · exact List.length_set

theorem Ok.transfer (h : Ok a) (ht : a.leases[target]? = some l₀) (hn : l₀.state = none)
    (hne : source ≠ target) : Ok (a.transfer target source) := by
  rw [Accounts.transfer]
  split
  · exact h
  · next l hs => exact h.of_alike (.rfl _) (h.conserved.move hs ht hn hne)

theorem Ok.erase (h : Ok a) (hi : a.leases[i]? = some l) (hn : l.state = none) :
    Ok { a with leases := a.leases.eraseIdx i } := by
  apply h.of_alike (.rfl _)
  apply h.conserved.alike (.rfl _)
  · intro c r
    have := total_eraseIdx (f := Lease.charge c r) hi
    rw [Lease.charge_none hn] at this
    rw [h.conserved.used]
    exact this.symm
  · exact h.conserved.within
  · intro k
    have := total_eraseIdx (f := a.shared.task k) hi
    rw [a.shared.task_none hn] at this
    rw [h.conserved.served]
    exact this.symm
  · exact h.conserved.servedWithin
  · exact fun l' hl' => h.conserved.leases l' (List.mem_of_mem_eraseIdx hl')

theorem Ok.newService (h : Ok a) (hx : a.shared.newService maxTasks = .ok (b, k)) :
    Ok { a with shared := b, services := a.services ++ [k] } := by
  rw [Budgets.newService] at hx
  split at hx
  · cases hx
  cases hx
  have hc := h.conserved
  have hservices : ∀ k (s : ServiceState),
      (Function.update a.shared.services a.shared.serviceCount s k) =
        if k = a.shared.serviceCount then s else a.shared.services k := fun _ _ =>
    Function.update_apply ..
  -- no connection is of a service that is only made now
  have hnew : total (a.shared.task a.shared.serviceCount) a.leases = 0 := by
    apply total_eq_zero
    intro l hl
    cases hs : l.state with
    | none => exact a.shared.task_none hs
    | some c =>
      by_cases hr : l.resource = .hApplicationTask
      · rw [a.shared.task_some hs hr, if_neg]
        exact fun hk => Nat.lt_irrefl _ (hc.known c _ hk)
      · exact a.shared.task_of_ne hr
  refine ⟨⟨hc.used, hc.within, hc.small, hc.streamSmall, ?_, ?_, ?_, ?_, ?_, hc.safe⟩, ?_, h.budgets⟩
  · intro k
    dsimp only
    rw [hservices]
    split
    · next hk =>
      rw [hk]
      exact hnew.symm
    · exact hc.served k
  · intro k
    dsimp only
    rw [hservices]
    split
    · exact Nat.zero_le _
    · exact hc.servedWithin k
  · intro k
    dsimp only
    rw [hservices]
    split
    · exact maxTasks.toNat_lt
    · exact hc.servedSmall k
  · exact fun c k hk => Nat.lt_succ_of_lt (hc.known c k hk)
  · intro l hl
    have hv := hc.leases l hl
    exact ⟨hv.known, hv.bound, hv.within, hv.slot, hv.empty⟩
  · intro k hk
    rcases List.mem_append.1 hk with hk | hk
    · exact Nat.lt_succ_of_lt (h.services k hk)
    · rw [List.mem_singleton.1 hk]
      exact Nat.lt_succ_self _

theorem limitsOf_lt (role : Role) (o : Http2Options) (r : Resource) :
    Budgets.limitsOf role o r < 2 ^ 64 := by
  have hsmall : ∀ n : UInt32, n.toNat < 2 ^ 64 := fun n =>
    Nat.lt_trans n.toNat_lt (Nat.pow_lt_pow_right (by decide) (by decide))
  cases r with
  | hProtocolStream => exact hsmall _
  | hApplicationTask => exact hsmall _
  | hReceiveBytes =>
    cases role with
    | hClient => exact o.maxClientConnectionReceiveBytes.toNat_lt
    | hServer => exact o.maxConnectionReceiveBytes.toNat_lt
  | hSendBytes => exact o.maxConnectionSendBytes.toNat_lt

theorem Conserved.newState (h : Conserved b ls) (s : BudgetState) (hu : ∀ r, s.used r = 0)
    (hl : ∀ r, s.limits r < 2 ^ 64) (hr : s.streamReceiveLimit < 2 ^ 64)
    (hk : ∀ k, s.service = some k → k < b.serviceCount) :
    Conserved { b with
      states := Function.update b.states b.stateCount s, stateCount := b.stateCount + 1 } ls := by
  have hstates : ∀ c, Function.update b.states b.stateCount s c =
      if c = b.stateCount then s else b.states c := fun c => Function.update_apply ..
  have hold : ∀ l ∈ ls, ∀ c, l.state = some c →
      Function.update b.states b.stateCount s c = b.states c := by
    intro l hl c hc
    rw [hstates, if_neg (Nat.ne_of_lt ((h.leases l hl).known c hc))]
  refine ⟨?_, ?_, ?_, ?_, ?_, h.servedWithin, h.servedSmall, ?_, ?_, h.safe⟩
  · intro c r
    dsimp only
    rw [hstates]
    split
    · next hc =>
      subst hc
      rw [hu, total_eq_zero]
      intro l hl
      rw [Lease.charge, if_neg]
      rintro ⟨hc, -⟩
      exact Nat.lt_irrefl _ ((h.leases l hl).known _ hc)
    · exact h.used c r
  · intro c r
    dsimp only
    rw [hstates]
    split
    · rw [hu]
      exact Nat.zero_le _
    · exact h.within c r
  · intro c r
    dsimp only
    rw [hstates]
    split
    · exact hl r
    · exact h.small c r
  · intro c
    dsimp only
    rw [hstates]
    split
    · exact hr
    · exact h.streamSmall c
  · intro k
    dsimp only
    rw [h.served]
    apply total_congr
    intro l hl
    cases hs : l.state with
    | none => rw [Budgets.task_none _ hs, Budgets.task_none _ hs]
    | some c =>
      by_cases hr : l.resource = .hApplicationTask
      · rw [Budgets.task_some _ hs hr, Budgets.task_some _ hs hr]
        apply if_congr _ rfl rfl
        dsimp only
        rw [hold l hl c hs]
      · rw [Budgets.task_of_ne _ hr, Budgets.task_of_ne _ hr]
  · intro c k
    dsimp only
    rw [hstates]
    split
    · exact hk k
    · exact h.known c k
  · intro l hl
    have hv := h.leases l hl
    refine ⟨fun c hc => Nat.lt_succ_of_lt (hv.known c hc), ?_, hv.within, hv.slot, hv.empty⟩
    intro c hc
    dsimp only
    rw [hold l hl c hc]
    exact hv.bound c hc

theorem Ok.newBudget (h : Ok a) (role : Role) (options : Http2Options)
    (hs : ∀ k, service = some k → k < a.shared.serviceCount) :
    Ok (a.newBudget role options service) := by
  rw [Accounts.newBudget]
  split
  · exact h
  next b x hx =>
  rw [Budgets.newBudget.eq_def, Http2Options.validate] at hx
  split at hx
  · cases hx
  simp only [bind, Except.bind, pure, Except.pure] at hx
  split at hx
  · cases hx
  cases hx
  refine ⟨Conserved.newState h.conserved _ (fun _ => rfl) (limitsOf_lt role options) ?_ hs, h.services, ?_⟩
  · cases role with
    | hClient => exact options.maxResponseBytes.toNat_lt
    | hServer => exact options.maxBodyBytes.toNat_lt
  · intro x hx
    rcases List.mem_append.1 hx with hx | hx
    · exact Nat.lt_succ_of_lt (h.budgets x hx)
    · rw [List.mem_singleton.1 hx]
      exact Nat.lt_succ_self _

theorem Ok.step (h : Ok a) (op : BudgetOp) : Ok (a.step op) := by
  cases op with
  | newService maxTasks =>
    rw [Accounts.step]
    split
    · exact h
    · next hx => exact h.newService hx
  | dropService i =>
    exact ⟨h.conserved, fun k hk => h.services k (List.mem_of_mem_eraseIdx hk), h.budgets⟩
  | newBudget role options service =>
    cases service with
    | none => exact h.newBudget role options nofun
    | some i =>
      rw [Accounts.step]
      split
      · exact h
      · next k hk =>
        apply h.newBudget role options
        rintro _ ⟨⟩
        exact h.services k (List.mem_of_getElem? hk)
  | copyBudget i =>
    refine ⟨h.conserved, h.services, ?_⟩
    intro x hx
    rcases List.mem_append.1 hx with hx | hx
    · exact h.budgets x hx
    · exact h.budgets x (List.mem_of_getElem? (Option.mem_toList.1 hx))
  | dropBudget i =>
    exact ⟨h.conserved, h.services, fun x hx => h.budgets x (List.mem_of_mem_eraseIdx hx)⟩
  | tryAcquire i request =>
    rw [Accounts.step]
    split
    · exact h
    · next x hx =>
      obtain ⟨hc, ha, -⟩ := h.tryAcquire (List.mem_of_getElem? hx) request rfl
      exact h.of_alike ha hc
  | tryResize i bytes =>
    rw [Accounts.step]
    split
    · exact h
    · next l hl =>
      obtain ⟨hc, ha, -⟩ := h.conserved.tryResize hl rfl
      exact h.of_alike ha hc
  | moveConstruct source =>
    rw [Accounts.step]
    split
    · next hs =>
      have hempty : Ok { a with leases := a.leases ++ [{}] } :=
        h.of_alike (.rfl _) (h.conserved.append_empty rfl (Lease.valid_empty _))
      exact hempty.transfer List.getElem?_concat_length rfl (Nat.ne_of_lt hs)
    · exact h
  | moveAssign target source =>
    rw [Accounts.step]
    split
    · next hs =>
      obtain ⟨l, hl, hn⟩ := reset_none h hs.2.2
      exact (h.reset target).transfer hl hn hs.1
    · exact h
  | reset i => exact h.reset i
  | destroy i =>
    by_cases hi : i < a.leases.length
    · obtain ⟨l, hl, hn⟩ := reset_none h hi
      exact (h.reset i).erase hl hn
    · have hle : (a.reset i).leases.length ≤ i := by
        rw [reset_length]
        exact Nat.le_of_not_lt hi
      rw [Accounts.step, List.eraseIdx_of_length_le hle]
      exact h.reset i

theorem ok_run (ops : List BudgetOp) : Ok (run ops) := by
  have hfold : ∀ (ops : List BudgetOp) (a : Accounts), Ok a → Ok (ops.foldl Accounts.step a) := by
    intro ops
    induction ops with
    | nil => exact fun _ h => h
    | cons op ops ih => exact fun a h => ih _ (h.step op)
  exact hfold ops {} ok_empty

/-- Whatever a program does to its budgets and leases, the counters agree with the leases that hold
something, no limit is passed and no difference goes below zero; and what fails changes nothing. -/
theorem budgets_conserved (ops : List BudgetOp) :
    Conserved (run ops).shared (run ops).leases ∧
      (∀ x ∈ (run ops).budgets, ∀ request,
        (x.tryAcquire (run ops).shared request).2.held = false →
          (x.tryAcquire (run ops).shared request).1 = (run ops).shared) ∧
      ∀ l ∈ (run ops).leases, ∀ bytes, ((run ops).shared.tryResize l bytes).2.2 = false →
        (run ops).shared.tryResize l bytes = ((run ops).shared, l, false) := by
  have h := ok_run ops
  refine ⟨h.conserved, ?_, ?_⟩
  · intro x hx request hn
    apply (h.tryAcquire hx request rfl).2.2
    exact Option.isSome_eq_false_iff.1 hn |> Option.isNone_iff_eq_none.1
  · intro l hl bytes hn
    obtain ⟨i, hi⟩ := List.mem_iff_getElem?.1 hl
    obtain ⟨h₁, h₂⟩ := (h.conserved.tryResize hi rfl).2.2.1 hn
    exact Prod.ext h₁ (Prod.ext h₂ hn)

end Accounts

end Hical.Http2
