import HeadlessMcp.Async.Hierarchy
import HeadlessMcp.Stdio.World

/-!
# The locks of a stdio backend

A message is written under `write_guard` and the lock of `stdin`, in this order, and a child is
killed under the lock of `child`. Whoever replaces or clears `stdin` or `child` waits for the lock
and gives it back at once. The wait for a response has a timeout. A write to the child and its
flush have none, and they are waited for under both locks: here the child reads its stdin, or
the write fails, whenever the environment says so. The reader task of a child waits for the
child to be there.
-/

namespace HeadlessMcp

open Async

/-- The locks of a stdio backend. -/
inductive StdioLock : Type where
  | write
  | stdin
  | child
  deriving DecidableEq

/-- The lock of `stdin` is above `write_guard`. -/
def StdioLock.rank : StdioLock → Bool
  | write => false
  | stdin => true
  | child => true

/-- What each operation has to do with the locks. What waits for the child alone (`writeAll`,
`flush`, `kill`, `nextLine`, `endOfOutput`) needs no lock that others hold, and counts as free. -/
def StdioOp.use : (β : Type) → StdioOp β → LockUse StdioLock
  | _, .lockWrite => .takes .write
  | _, .unlockWrite => .drops .write
  | _, .lockStdin => .takes .stdin
  | _, .unlockStdin => .drops .stdin
  | _, .lockChild => .takes .child
  | _, .unlockChild => .drops .child
  | _, .setStdin _ => .passes .stdin
  | _, .clearStdin => .passes .stdin
  | _, .setChild _ => .passes .child
  | _, .beginReading _ => .waits
  | _, _ => .free

/-- Who holds a lock. -/
def StdioWorld.holder {ι : Type} (s : StdioWorld ι) : StdioLock → Option ι
  | .write => s.writeHolder
  | .stdin => s.stdinHolder
  | .child => s.childHolder

/-! ## The operations -/

section Operations

variable {ι : Type}

/-- What waits for a lock that is held does nothing. -/
theorem eq_some_of_free {γ : Type} {holder : Option ι} {next r : γ}
    (h : (if holder.isSome then none else some next) = some r) : holder = none ∧ next = r := by
  cases holder with
  | none => exact ⟨rfl, Option.some.inj h⟩
  | some j => cases h

/-- And it goes on when the lock is free. -/
theorem some_of_free {γ : Type} {holder : Option ι} {next : γ} (h : holder = none) :
    (if holder.isSome then none else some next) = some next := by
  rw [h]
  rfl

/-- Who holds a lock is said by three fields. -/
theorem StdioWorld.holder_congr {s t : StdioWorld ι} (hwrite : t.writeHolder = s.writeHolder)
    (hstdin : t.stdinHolder = s.stdinHolder) (hchild : t.childHolder = s.childHolder) :
    t.holder = s.holder := by
  funext l
  cases l with
  | write => exact hwrite
  | stdin => exact hstdin
  | child => exact hchild

/-- `write_guard` changes hands. -/
theorem StdioWorld.holder_write (s : StdioWorld ι) (h : Option ι) :
    ({ s with writeHolder := h } : StdioWorld ι).holder = Function.update s.holder .write h := by
  funext l
  cases l <;> rfl

/-- The lock of `stdin` changes hands. -/
theorem StdioWorld.holder_stdin (s : StdioWorld ι) (h : Option ι) :
    ({ s with stdinHolder := h } : StdioWorld ι).holder = Function.update s.holder .stdin h := by
  funext l
  cases l <;> rfl

/-- The lock of `child` changes hands. -/
theorem StdioWorld.holder_child (s : StdioWorld ι) (h : Option ι) :
    ({ s with childHolder := h } : StdioWorld ι).holder = Function.update s.holder .child h := by
  funext l
  cases l <;> rfl

variable {i : ι} {β : Type} {o : StdioOp β} {e : StdioChoice} {s t : StdioWorld ι} {b : β}

/-- An operation that acquires no lock and drops none leaves them as they are. -/
theorem holder_kept (huse : ∀ l, o.use ≠ .takes l ∧ o.use ≠ .drops l)
    (hexec : (stdioMachine ι).exec i β o e s = some (b, t)) : t.holder = s.holder := by
  cases o with
  | lockWrite => exact absurd rfl (huse .write).1
  | unlockWrite => exact absurd rfl (huse .write).2
  | lockStdin => exact absurd rfl (huse .stdin).1
  | unlockStdin => exact absurd rfl (huse .stdin).2
  | lockChild => exact absurd rfl (huse .child).1
  | unlockChild => exact absurd rfl (huse .child).2
  | setStdin | clearStdin | setChild =>
    obtain rfl := (Prod.mk.inj (eq_some_of_free hexec).2).2
    exact StdioWorld.holder_congr rfl rfl rfl
  | spawn command args env cwd =>
    simp only [stdioMachine, StdioWorld.exec] at hexec
    split at hexec <;> cases hexec <;> exact StdioWorld.holder_congr rfl rfl rfl
  | await channel timeoutSecs =>
    obtain ⟨r, -, heq⟩ := Option.map_eq_some_iff.mp hexec
    obtain rfl := (Prod.mk.inj heq).2
    rfl
  | tryForget id =>
    obtain rfl := (Prod.mk.inj (Option.some.inj hexec)).2
    split
    · rfl
    · exact StdioWorld.holder_congr rfl rfl rfl
  | beginReading child =>
    simp only [stdioMachine, StdioWorld.exec] at hexec
    split at hexec <;> cases hexec
    rfl
  | _ =>
    obtain rfl := (Prod.mk.inj (Option.some.inj hexec)).2
    exact StdioWorld.holder_congr rfl rfl rfl

/-- An operation goes on when the lock that it needs is free; a wait for a response is over
after its timeout. -/
theorem stdio_enabled (i : ι) (hwaits : o.use ≠ .waits)
    (hfree : ∀ l, o.use = .takes l ∨ o.use = .passes l → s.holder l = none) :
    ∃ e r, (stdioMachine ι).exec i β o e s = some r := by
  cases o with
  | lockWrite => exact ⟨{}, _, some_of_free (hfree .write (.inl rfl))⟩
  | lockStdin => exact ⟨{}, _, some_of_free (hfree .stdin (.inl rfl))⟩
  | lockChild => exact ⟨{}, _, some_of_free (hfree .child (.inl rfl))⟩
  | setStdin child => exact ⟨{}, _, some_of_free (hfree .stdin (.inr rfl))⟩
  | clearStdin => exact ⟨{}, _, some_of_free (hfree .stdin (.inr rfl))⟩
  | setChild child => exact ⟨{}, _, some_of_free (hfree .child (.inr rfl))⟩
  | await channel timeoutSecs =>
    obtain ⟨a, ha⟩ : ∃ a, s.awaited channel true = some a := by
      rw [StdioWorld.awaited]
      cases s.channels channel <;> exact ⟨_, rfl⟩
    exact ⟨{ timeout := true }, (a, s), congrArg (Option.map _) ha⟩
  | beginReading child => exact absurd rfl hwaits
  | _ => exact ⟨{}, _, rfl⟩

/-- The locks of a stdio backend are locks. -/
theorem stdio_locks : Locks (stdioMachine ι) StdioOp.use StdioWorld.holder where
  takes {i β o e s b t l} huse hexec := by
    cases o with
    | lockWrite =>
      obtain rfl : StdioLock.write = l := LockUse.takes.inj huse
      obtain ⟨hnone, heq⟩ := eq_some_of_free hexec
      obtain rfl := (Prod.mk.inj heq).2
      exact ⟨hnone, s.holder_write (some i)⟩
    | lockStdin =>
      obtain rfl : StdioLock.stdin = l := LockUse.takes.inj huse
      obtain ⟨hnone, heq⟩ := eq_some_of_free hexec
      obtain rfl := (Prod.mk.inj heq).2
      exact ⟨hnone, s.holder_stdin (some i)⟩
    | lockChild =>
      obtain rfl : StdioLock.child = l := LockUse.takes.inj huse
      obtain ⟨hnone, heq⟩ := eq_some_of_free hexec
      obtain rfl := (Prod.mk.inj heq).2
      exact ⟨hnone, s.holder_child (some i)⟩
    | _ => cases huse
  drops {i β o e s b t l} huse hexec := by
    cases o with
    | unlockWrite =>
      obtain rfl : StdioLock.write = l := LockUse.drops.inj huse
      obtain rfl := (Prod.mk.inj (Option.some.inj hexec)).2
      exact s.holder_write none
    | unlockStdin =>
      obtain rfl : StdioLock.stdin = l := LockUse.drops.inj huse
      obtain rfl := (Prod.mk.inj (Option.some.inj hexec)).2
      exact s.holder_stdin none
    | unlockChild =>
      obtain rfl : StdioLock.child = l := LockUse.drops.inj huse
      obtain rfl := (Prod.mk.inj (Option.some.inj hexec)).2
      exact s.holder_child none
    | _ => cases huse
  keeps huse hexec := holder_kept huse hexec
  enabled i _ _ _ hwaits hfree := stdio_enabled i hwaits hfree

end Operations

/-! ## The tasks -/

section Tasks

variable {α : Type} {mayWait : Prop} {p : Prog StdioOp α} (b : StdioBackend)

/-- The program takes and drops its locks in order. -/
abbrev StdioOrderly (mayWait : Prop) (p : Prog StdioOp α) : Prop :=
  p.Orderly StdioOp.use StdioLock.rank mayWait [] []

/-- A message is written under both locks. -/
theorem orderly_sendMessage (message : JsonRpcMessage) :
    StdioOrderly mayWait (sendMessage message) := by
  refine Prog.Orderly.withLock (l := StdioLock.write) rfl rfl (by simp) ?_
  refine Prog.Orderly.withLock (l := StdioLock.stdin) rfl rfl (by simp [StdioLock.rank]) ?_
  refine Prog.orderly_op rfl fun stdin => ?_
  cases stdin with
  | none => rfl
  | some child =>
    refine Prog.orderly_op rfl fun written => ?_
    cases written with
    | error e => rfl
    | ok u =>
      refine Prog.orderly_op rfl fun flushed => ?_
      cases flushed <;> rfl

theorem orderly_stdioRequest (method : String) (params : Option Value) (timeoutSecs : Nat)
    (handshake : Option Nat) :
    StdioOrderly mayWait (b.sendRequest method params timeoutSecs handshake) := by
  refine Prog.orderly_op rfl fun id => Prog.orderly_op rfl fun channel => ?_
  refine (orderly_sendMessage _).bind fun written => ?_
  cases written with
  | error e => rfl
  | ok u =>
    refine Prog.orderly_op rfl fun awaited => ?_
    cases awaited with
    | answered r => rfl
    | dropped => rfl
    | timedOut => exact Prog.orderly_op rfl fun _ => rfl

theorem orderly_openChild (child : Nat) : StdioOrderly mayWait (b.openChild child) := by
  refine Prog.orderly_passes rfl (by simp) fun _ => Prog.orderly_passes rfl (by simp) fun _ => ?_
  refine Prog.orderly_op rfl fun _ => (orderly_stdioRequest b _ _ _ _).bind fun result => ?_
  rcases result with e | result
  · rfl
  · dsimp only
    split
    · rfl
    · refine (orderly_sendMessage _).bind fun written => ?_
      cases written with
      | error e => rfl
      | ok u => exact Prog.orderly_op rfl fun _ => Prog.orderly_op rfl fun _ => rfl

theorem orderly_stdioConnect : StdioOrderly mayWait b.connect := by
  refine Prog.orderly_op rfl fun connected => ?_
  cases connected with
  | true =>
    refine Prog.orderly_op rfl fun init => ?_
    cases init <;> rfl
  | false =>
    rw [Prog.ret_bind, if_neg Bool.false_ne_true]
    split
    · rfl
    · refine Prog.orderly_op rfl fun spawned => ?_
      rcases spawned with e | spawned
      · rfl
      · rw [Prog.ret_bind]
        dsimp only
        split
        · rfl
        · split
          · rfl
          · exact orderly_openChild b spawned.child

theorem orderly_stdioDisconnect : StdioOrderly mayWait StdioBackend.disconnect := by
  refine Prog.orderly_op rfl fun _ => Prog.orderly_passes rfl (by simp) fun _ => ?_
  have hkill : StdioOrderly mayWait StdioBackend.killChild := by
    refine Prog.Orderly.withLock (l := StdioLock.child) rfl rfl (by simp) ?_
    refine Prog.orderly_op rfl fun taken => ?_
    cases taken with
    | none => rfl
    | some child => exact Prog.orderly_op rfl fun _ => rfl
  exact hkill.bind fun _ => rfl

/-- What is done when the backend is connected. -/
theorem orderly_ifConnected {p q : Prog StdioOp α} (hp : StdioOrderly mayWait p)
    (hq : StdioOrderly mayWait q) :
    StdioOrderly mayWait (.op .isConnected fun connected => if connected then p else q) := by
  refine Prog.orderly_op rfl fun connected => ?_
  cases connected with
  | true => exact hp
  | false => exact hq

/-- **Every method of a stdio backend takes its locks in order.** -/
theorem StdioBackend.orderly_run (method : McpOp α) : StdioOrderly mayWait (b.run method) := by
  cases method with
  | connect => exact orderly_stdioConnect b
  | listTools =>
    refine orderly_ifConnected ?_ rfl
    refine (orderly_stdioRequest b _ _ _ _).bind fun result => ?_
    rcases result with e | v
    · rfl
    · dsimp only
      split <;> rfl
  | callTool name arguments timeoutSecs =>
    exact orderly_ifConnected (orderly_stdioRequest b _ _ _ _) rfl
  | disconnect => exact orderly_stdioDisconnect
  | healthCheck =>
    refine orderly_ifConnected ?_ rfl
    refine (orderly_stdioRequest b _ _ _ _).bind fun result => ?_
    cases result <;> rfl
  | request method params timeoutSecs =>
    exact orderly_ifConnected (orderly_stdioRequest b _ _ _ _) rfl
  | takeToolsRefresh => rfl

/-- A reader task waits for its child, and then for nothing. -/
theorem StdioBackend.orderly_readerTask (child : Nat) (output : List String) :
    StdioOrderly True (b.readerTask child output) := by
  have hline (line : String) : StdioOrderly True (b.handleLine line) := by
    rw [StdioBackend.handleLine]
    split
    · rfl
    · split
      · exact Prog.orderly_op rfl fun _ => rfl
      · exact Prog.orderly_op rfl fun _ => rfl
      · rfl
  have hread : StdioOrderly True (b.readResponses child output) := by
    induction output with
    | nil => exact Prog.orderly_op rfl fun _ => rfl
    | cons line lines ih => exact Prog.orderly_op rfl fun _ => (hline line).bind fun _ => ih
  refine ⟨⟨trivial, rfl⟩, fun _ => hread.bind fun _ => ?_⟩
  exact Prog.orderly_op rfl fun _ => Prog.orderly_op rfl fun _ => rfl

end Tasks

end HeadlessMcp
