import HeadlessMcp.Async.Progress
import HeadlessMcp.Async.Rely
import HeadlessMcp.OAuth2.World

/-!
# Under the refresh lock

Everything that changes the cache, the store or the record of exchanges happens
under the refresh lock. So a task that holds the lock reasons about them as if it
were alone (`Inside`), and between two critical sections it may rely on whatever
held of them while the lock was free.

`lockProtocol always free` is that discipline with two parameters: what holds of
the tokens in every state, and what holds of them when nobody has the lock. The
`safe_` lemmas are its rules: one for an operation inside, one for a program that
does not touch the tokens, one for a guarded block, one for a look at the cache from
outside.
-/

namespace HeadlessMcp

open Async

/-- The part of the world that only the holder of the refresh lock changes. (The
discovered metadata is written before the calls start; no call changes it.) -/
structure Tokens : Type where
  cache : Option TokenCache
  discovered : Option AuthServerMetadata
  exchanges : List (TokenForm × JsonReply)
  store : String → Option PersistedToken

variable {ι : Type}

/-- The tokens of a world. This is what the refresh lock protects: the cache, the metadata, the
record of what was sent, and the store. -/
def OAuthWorld.tokens (s : OAuthWorld ι) : Tokens :=
  ⟨s.cache, s.discovered, s.exchanges, s.store⟩

namespace OAuthOp

variable {β : Type}

/-- `o` acquires the refresh lock. -/
def Acquires : OAuthOp β → Prop
  | .lockRefresh => True
  | _ => False

/-- `o` drops the refresh guard. -/
def Releases : OAuthOp β → Prop
  | .unlockRefresh => True
  | _ => False

/-- `o` does not touch the refresh lock. -/
def Free (o : OAuthOp β) : Prop := ¬ o.Acquires ∧ ¬ o.Releases

/-- `o` changes neither the refresh lock nor the tokens. So it may be performed inside and outside
the lock alike. -/
def Quiet : OAuthOp β → Prop
  | .lockRefresh | .unlockRefresh | .updateCache _ | .writeDiscovered _ | .postToken _ _
  | .storeToken _ _ => False
  | _ => True

theorem Quiet.free {o : OAuthOp β} (h : o.Quiet) : o.Free := by
  cases o <;> first | exact absurd h id | exact ⟨id, id⟩

end OAuthOp

/-! ## What the operations keep -/

variable {i : ι} {β : Type} {o : OAuthOp β} {e : OAuthChoice} {s t : OAuthWorld ι} {b : β}

/-- A quiet operation leaves the lock and the tokens alone. This is the frame of most of the
manager's operations. -/
theorem exec_quiet (ho : o.Quiet) (h : (oauthMachine ι).exec i β o e s = some (b, t)) :
    t.refreshHolder = s.refreshHolder ∧ t.tokens = s.tokens := by
  cases o <;> simp only [oauthMachine, OAuthWorld.exec, OAuthWorld.tick, OAuthWorld.tokens,
    OAuthOp.Quiet] at h ho ⊢ <;> grind

/-- An operation that does not touch the lock leaves its holder alone. -/
theorem exec_holder (ho : o.Free) (h : (oauthMachine ι).exec i β o e s = some (b, t)) :
    t.refreshHolder = s.refreshHolder := by
  cases o <;> simp only [oauthMachine, OAuthWorld.exec, OAuthWorld.tick, OAuthOp.Free,
    OAuthOp.Acquires, OAuthOp.Releases] at h ho ⊢ <;> grind

/-- The record of exchanges only grows. -/
theorem exec_exchanges_suffix (h : (oauthMachine ι).exec i β o e s = some (b, t)) :
    s.exchanges <:+ t.exchanges := by
  cases o <;> simp only [oauthMachine, OAuthWorld.exec, OAuthWorld.tick] at h <;> grind

/-- The clock never goes back. -/
theorem exec_instant (h : (oauthMachine ι).exec i β o e s = some (b, t)) :
    s.instant ≤ t.instant := by
  cases o <;> simp only [oauthMachine, OAuthWorld.exec, OAuthWorld.tick] at h <;> grind

/-- The refresh lock is a lock. A task that acquires it waits until nobody holds it, and nobody
else gives it back. -/
theorem refreshLock : Lock (oauthMachine ι) OAuthOp.Acquires OAuthOp.Releases
    OAuthWorld.refreshHolder where
  acquire {_ _ o _ _ _ _} ho h := by
    cases o <;> simp only [oauthMachine, OAuthWorld.exec, OAuthOp.Acquires] at h ho; grind
  release {_ _ o _ _ _ _} ho h := by
    cases o <;> simp only [oauthMachine, OAuthWorld.exec, OAuthOp.Releases] at h ho; grind
  other ha hr h := exec_holder ⟨ha, hr⟩ h

/-! ## The protocol -/

/-- The discipline of the refresh lock: `always` holds of the tokens, and `free` when
nobody has the lock. The holder relies on the tokens as it left them; everybody
relies on the record of exchanges. -/
def lockProtocol (ι : Type) (always free : Tokens → Prop) : Protocol ι (OAuthWorld ι) where
  inv s := always s.tokens ∧ (s.refreshHolder = none → free s.tokens)
  rely i s t := s.exchanges <:+ t.exchanges ∧
    (s.refreshHolder = some i → t.refreshHolder = some i ∧ t.tokens = s.tokens)
  rely_refl _ s := ⟨List.suffix_refl s.exchanges, fun h => ⟨h, rfl⟩⟩
  rely_trans _ _ _ _ hst htu := by
    refine ⟨hst.1.trans htu.1, fun h => ?_⟩
    obtain ⟨ht, hst⟩ := hst.2 h
    obtain ⟨hu, htu⟩ := htu.2 ht
    exact ⟨hu, htu.trans hst⟩

/-- Task `i` holds the refresh lock, and `J` holds of the tokens. -/
def Inside (i : ι) (J : Tokens → Prop) (s : OAuthWorld ι) : Prop :=
  s.refreshHolder = some i ∧ J s.tokens

section Rules

variable {always free : Tokens → Prop} {C : Rule OAuthOp ι OAuthChoice (OAuthWorld ι)}
  {α : Type} {J : Tokens → Prop} {k : β → Prog OAuthOp α}
  {Q : Outcome α → OAuthWorld ι → Prop}

/-- What a task inside knows is not disturbed. The others cannot change the tokens, since they
would need the lock for it. -/
theorem inside_stable : (lockProtocol ι always free).Stable i (Inside i J) := by
  intro s t hst _ hs
  obtain ⟨ht, heq⟩ := hst.2 hs.1
  exact ⟨ht, heq ▸ hs.2⟩

/-- A step of the holder that keeps the lock and `always` is expected by the others. -/
theorem keeps_of_inside (hs : s.refreshHolder = some i) (ht : t.refreshHolder = some i)
    (hsuffix : s.exchanges <:+ t.exchanges) (halways : always t.tokens) :
    (lockProtocol ι always free).Keeps i s t := by
  refine ⟨⟨halways, fun h => ?_⟩, fun j hj => ⟨hsuffix, fun h => ?_⟩⟩
  · rw [ht] at h
    cases h
  · rw [hs] at h
    exact absurd (Option.some.inj h).symm hj

/-- An operation inside. -/
theorem safe_inside_op (ho : o.Free) (hs : Inside i J s)
    (hk : ∀ s' e b t, Inside i J s' → always s'.tokens → C i β o e s' →
      (oauthMachine ι).exec i β o e s' = some (b, t) → t.refreshHolder = some i →
      always t.tokens ∧ (lockProtocol ι always free).Safe (oauthMachine ι) C i (k b) Q t) :
    (lockProtocol ι always free).Safe (oauthMachine ι) C i (.op o k) Q s := by
  refine Protocol.safe_op fun s' hr hi e b t hC he => ?_
  have hs' : Inside i J s' := inside_stable s s' hr hi hs
  have ht : t.refreshHolder = some i := (exec_holder ho he).trans hs'.1
  obtain ⟨halways, hrest⟩ := hk s' e b t hs' hi.1 hC he ht
  exact ⟨keeps_of_inside hs'.1 ht (exec_exchanges_suffix he) halways, hrest⟩

/-- A quiet operation inside. -/
theorem safe_quiet_op (ho : o.Quiet) (hs : Inside i J s)
    (hk : ∀ s' e b t, Inside i J s' → C i β o e s' →
      (oauthMachine ι).exec i β o e s' = some (b, t) → Inside i J t → t.tokens = s'.tokens →
      (lockProtocol ι always free).Safe (oauthMachine ι) C i (k b) Q t) :
    (lockProtocol ι always free).Safe (oauthMachine ι) C i (.op o k) Q s := by
  refine safe_inside_op ho.free hs fun s' e b t hs' halways hC he ht => ?_
  obtain ⟨-, htok⟩ := exec_quiet ho he
  rw [htok]
  exact ⟨halways, hk s' e b t hs' hC he ⟨ht, htok ▸ hs'.2⟩ htok⟩

/-- A program inside that only uses quiet operations. What held of the tokens when the lock was
taken holds at the end of the program. -/
theorem safe_quiet {p : Prog OAuthOp α} (hp : p.Uses OAuthOp.Quiet) (hs : Inside i J s) :
    (lockProtocol ι always free).Safe (oauthMachine ι) C i p (fun _ t => Inside i J t) s := by
  refine Protocol.Safe.of_uses inside_stable (fun δ o e s b t ho hi hs hC he => ?_) hp hs
  obtain ⟨hholder, htok⟩ := exec_quiet ho he
  have ht : t.refreshHolder = some i := hholder.trans hs.1
  refine ⟨keeps_of_inside hs.1 ht (exec_exchanges_suffix he) (htok ▸ hi.1), ht, ?_⟩
  rw [htok]
  exact hs.2

/-- A quiet program inside, then the rest. -/
theorem safe_quiet_bind {p : Prog OAuthOp β} {s : OAuthWorld ι} (hp : p.Uses OAuthOp.Quiet)
    (hs : Inside i J s)
    (hk : ∀ b t, Inside i J t →
      (lockProtocol ι always free).Safe (oauthMachine ι) C i (k b) Q t)
    (hpanic : ∀ t, Inside i J t → Q .panicked t) :
    (lockProtocol ι always free).Safe (oauthMachine ι) C i (p.bind k) Q s := by
  refine Protocol.Safe.bind (Protocol.Safe.mono (safe_quiet hp hs) fun x t _ ht => ?_)
  cases x with
  | done b => exact hk b t ht
  | panicked => exact hpanic t ht

/-- The end of a block: what holds inside is stable. -/
theorem safe_inside_ret {a : α} (hs : Inside i J s)
    (hQ : ∀ t, Inside i J t → Q (.done a) t) :
    (lockProtocol ι always free).Safe (oauthMachine ι) C i (.ret a) Q s :=
  Protocol.safe_ret fun s' hr hi => hQ s' (inside_stable s s' hr hi hs)

/-- A panic inside: what holds there is stable too. -/
theorem safe_inside_panic (hs : Inside i J s) (hQ : ∀ t, Inside i J t → Q .panicked t) :
    (lockProtocol ι always free).Safe (oauthMachine ι) C i .panic Q s :=
  fun s' hr hi => hQ s' (inside_stable s s' hr hi hs)

/-- A block under the refresh lock: it starts where the lock was free, and gives back
what it took. -/
theorem safe_withLock {p : Prog OAuthOp α} {R : Outcome α → OAuthWorld ι → Prop}
    (hbody : ∀ t, Inside i free t → always t.tokens → s.exchanges <:+ t.exchanges →
      (lockProtocol ι always free).Safe (oauthMachine ι) C i p
        (fun x u => Inside i free u ∧ R x u) t)
    (hR : ∀ x u u', R x u → u.tokens = u'.tokens → R x u')
    (hQ : ∀ x u u', R x u → u.exchanges <:+ u'.exchanges → Q x u') :
    (lockProtocol ι always free).Safe (oauthMachine ι) C i
      (Prog.withLock .lockRefresh .unlockRefresh p) Q s := by
  refine Protocol.safe_op fun s' hr hi e b t _ he => ?_
  have hacq := refreshLock.acquire (o := OAuthOp.lockRefresh) trivial he
  have htok : t.tokens = s'.tokens := by
    simp only [oauthMachine, OAuthWorld.exec, OAuthWorld.tokens] at he ⊢
    grind
  have ht : Inside i free t := ⟨hacq.2, htok ▸ hi.2 hacq.1⟩
  have hexch : t.exchanges = s'.exchanges := congrArg Tokens.exchanges htok
  refine ⟨⟨⟨htok ▸ hi.1, fun _ => ht.2⟩, fun j _ => ⟨hexch ▸ List.suffix_refl _, ?_⟩⟩, ?_⟩
  · intro h
    rw [hacq.1] at h
    cases h
  · refine Protocol.Safe.andFinally (Protocol.Safe.mono
      (hbody t ht (htok ▸ hi.1) (hexch ▸ hr.1)) fun x u hu hx e b v _ he => ?_)
    obtain ⟨rfl, rfl⟩ := Prod.mk.inj (Option.some.inj he)
    have hx' : R x _ := hR x u { u with refreshHolder := none } hx.2 rfl
    refine ⟨⟨⟨hu.1, fun _ => hx.1.2⟩, fun j hj => ⟨List.suffix_refl _, fun h => ?_⟩⟩, ?_⟩
    · rw [hx.1.1] at h
      exact absurd (Option.some.inj h).symm hj
    · exact fun u' hu' _ => hQ x _ u' hx' hu'.1

/-- A look at the cache and the clock, with or without the lock. -/
theorem safe_readCache {k : Instant × Option TokenCache → Prog OAuthOp α}
    (hk : ∀ s' e t, (lockProtocol ι always free).inv s' → s.exchanges <:+ s'.exchanges →
      C i _ .readCache e s' → s'.instant ≤ e.instant → t = { s' with instant := e.instant } →
      (lockProtocol ι always free).Safe (oauthMachine ι) C i (k (e.instant, s'.cache)) Q t) :
    (lockProtocol ι always free).Safe (oauthMachine ι) C i (.op .readCache k) Q s := by
  refine Protocol.safe_op fun s' hr hi e b t hC he => ?_
  obtain ⟨hle, rfl, rfl⟩ := exec_readCache he
  refine ⟨⟨hi, fun j _ => ⟨List.suffix_refl _, fun h => ⟨h, rfl⟩⟩⟩, ?_⟩
  exact hk s' e _ hi hr.1 hC hle rfl

end Rules

end HeadlessMcp
