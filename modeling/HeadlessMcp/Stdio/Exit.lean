import HeadlessMcp.Stdio.World

/-!
# The exit of a reader task

When a child's output ends, its reader task clears `connected` and fails every pending
request. Both belong to the whole backend, not to the child, so a reader task that exits late
does this to the connection of a later child.

What the code does keep is the order inside one `connect`: the stdin of the child is stored
before a request is written to it and before `connected` is set. So an exit that comes before
any later child's stdin is stored, or that finds nothing to do, spares every later connection.
-/

namespace HeadlessMcp

open Async

variable {ι : Type} {α β : Type}

/-! ## What the exit of a reader task does to others -/

/-- The exit of a child's reader task clears `connected` for no connection of a later child,
and fails no pending request that belongs to one: neither a request that was made for it, nor
one that was or is about to be written to the later child's stdin. -/
def SparesLater : Rule StdioOp (ι ⊕ Nat) StdioChoice (StdioWorld (ι ⊕ Nat))
  | _, _, o, _, s =>
    match o with
    | .markDown child => ∀ n ∈ s.up, n ≤ child
    | .drain child _ => ∀ p ∈ s.pending, ∀ n ∈ s.belongsTo p, n ≤ child
    | _ => True

/-- The exit of a child's reader task comes before any later child's stdin is stored, or it
finds nothing to do. -/
def PromptExit : Rule StdioOp (ι ⊕ Nat) StdioChoice (StdioWorld (ι ⊕ Nat))
  | _, _, o, _, s =>
    match o with
    | .markDown child => s.connected = false ∨ ∀ n ∈ s.opened, n ≤ child
    | .drain child _ => s.pending = [] ∨ ∀ n ∈ s.opened, n ≤ child
    | _ => True

/-- Every child that a connection or a message has to do with had its stdin stored. -/
structure ExitInv (s : StdioWorld (ι ⊕ Nat)) : Prop where
  up : s.up ⊆ s.opened
  /-- a connection is up only while `connected` is set -/
  down : s.connected = false → s.up = []
  owners : ∀ p ∈ s.pending, p.owners ⊆ s.opened
  stdin : s.stdin.toList ⊆ s.opened
  sent : s.sent.map Prod.fst ⊆ s.opened

/-- A message was written only to a child whose stdin had been stored. -/
theorem ExitInv.writtenTo {s : StdioWorld (ι ⊕ Nat)} (hs : ExitInv s) (id : Int) :
    s.writtenTo id ⊆ s.opened :=
  List.Subset.trans (List.map_subset _ (List.filter_subset_self _)) hs.sent

/-- A pending request belongs to children whose stdin was stored. -/
theorem ExitInv.belongsTo {s : StdioWorld (ι ⊕ Nat)} (hs : ExitInv s) {p : PendingRequest}
    (hp : p ∈ s.pending) : s.belongsTo p ⊆ s.opened := by
  refine List.append_subset.mpr ⟨hs.owners p hp, ?_⟩
  split
  · exact hs.stdin
  · exact hs.writtenTo p.id

/-- Nobody takes back that a child's stdin was stored. -/
def exitProtocol (ι : Type) : Protocol (ι ⊕ Nat) (StdioWorld (ι ⊕ Nat)) where
  inv := ExitInv
  rely _ s t := s.opened ⊆ t.opened
  rely_refl _ _ := List.Subset.refl _
  rely_trans _ _ _ _ := List.Subset.trans

/-- The child for which an operation sets `connected`, registers an `initialize` request or
writes a message. -/
def StdioOp.concerns : StdioOp β → Option Nat
  | .establish child | .writeAll child _ => some child
  | .register _ handshake => handshake
  | _ => none

/-- Every step keeps the invariant, if the child it concerns had its stdin stored. -/
theorem exec_exitInv {i : ι ⊕ Nat} {o : StdioOp β} {e : StdioChoice}
    {s t : StdioWorld (ι ⊕ Nat)} {b : β} (hs : ExitInv s)
    (ho : o.concerns.toList ⊆ s.opened)
    (h : (stdioMachine (ι ⊕ Nat)).exec i β o e s = some (b, t)) :
    ExitInv t ∧ s.opened ⊆ t.opened := by
  have hkeep : s.opened ⊆ s.opened := List.Subset.refl _
  cases o with
  | establish child =>
    cases h
    have hup : child :: s.up ⊆ s.opened := List.cons_subset.mpr ⟨ho List.mem_cons_self, hs.up⟩
    exact ⟨{ hs with up := hup, down := fun h => Bool.noConfusion h }, hkeep⟩
  | markClosed | markDown =>
    cases h
    exact ⟨{ hs with up := List.nil_subset _, down := fun _ => rfl }, hkeep⟩
  | setStdin child =>
    -- a child more is known, so what was known stays known
    simp only [stdioMachine, StdioWorld.exec] at h
    split at h <;> cases h
    have hgrow : s.opened ⊆ child :: s.opened := List.subset_cons_self _ _
    exact ⟨{
      up := List.Subset.trans hs.up hgrow
      down := hs.down
      owners := fun p hp => List.Subset.trans (hs.owners p hp) hgrow
      stdin := List.cons_subset_cons child (List.nil_subset _)
      sent := List.Subset.trans hs.sent hgrow }, hgrow⟩
  | clearStdin =>
    simp only [stdioMachine, StdioWorld.exec] at h
    split at h <;> cases h
    exact ⟨{ hs with stdin := List.nil_subset _ }, hkeep⟩
  | register id handshake =>
    cases h
    refine ⟨{ hs with owners := fun p hp => ?_ }, hkeep⟩
    obtain rfl | hp := List.mem_cons.mp hp
    · -- the new entry belongs to the connections that are up, or to the child of its `connect`
      cases handshake with
      | none => exact hs.up
      | some child => exact ho
    · exact hs.owners p (StdioWorld.mem_without hp)
  | writeAll child message =>
    cases h
    have hsent : child :: s.sent.map Prod.fst ⊆ s.opened :=
      List.cons_subset.mpr ⟨ho List.mem_cons_self, hs.sent⟩
    exact ⟨{ hs with sent := hsent }, hkeep⟩
  | tryForget id =>
    cases h
    split
    · exact ⟨hs, hkeep⟩
    · exact ⟨{ hs with owners := fun p hp => hs.owners p (StdioWorld.mem_without hp) }, hkeep⟩
  | settle id r =>
    cases h
    exact ⟨{ hs with owners := fun p hp => hs.owners p (StdioWorld.mem_without hp) }, hkeep⟩
  | drain child error =>
    cases h
    exact ⟨{ hs with owners := fun p hp => by cases hp }, hkeep⟩
  | spawn =>
    simp only [stdioMachine, StdioWorld.exec] at h
    split at h <;> cases h <;> exact ⟨{ hs with }, hkeep⟩
  | setChild | lockChild | lockWrite | lockStdin | beginReading =>
    simp only [stdioMachine, StdioWorld.exec] at h
    split at h <;> cases h
    exact ⟨{ hs with }, hkeep⟩
  | await channel =>
    obtain ⟨_, -, heq⟩ := Option.map_eq_some_iff.mp h
    cases heq
    exact ⟨hs, hkeep⟩
  | _ =>
    cases h
    exact ⟨{ hs with }, hkeep⟩

/-! ## What the tasks keep -/

section Tasks

variable {i : ι ⊕ Nat} (b : StdioBackend)

/-- `Safe` for the exits of reader tasks. -/
abbrev ExitSafe (i : ι ⊕ Nat) : Prog StdioOp α → (Outcome α → StdioWorld (ι ⊕ Nat) → Prop) →
    StdioWorld (ι ⊕ Nat) → Prop :=
  (exitProtocol ι).Safe (stdioMachine (ι ⊕ Nat)) (fun _ _ _ _ _ => True) i

/-- What a program starts and ends with: it knows of some children that their stdin was
stored. -/
abbrev Keeping (known : List Nat) : Outcome α → StdioWorld (ι ⊕ Nat) → Prop :=
  fun _ t => known ⊆ t.opened

/-- One step that concerns a known child, or none. -/
theorem exitProtocol_keeps {o : StdioOp β} {e : StdioChoice} {s t : StdioWorld (ι ⊕ Nat)} {b : β}
    {known : List Nat} (hknown : known ⊆ s.opened) (hs : ExitInv s)
    (ho : o.concerns.toList ⊆ known)
    (h : (stdioMachine (ι ⊕ Nat)).exec i β o e s = some (b, t)) :
    (exitProtocol ι).Keeps i s t ∧ known ⊆ t.opened := by
  obtain ⟨ht, hgrow⟩ := exec_exitInv hs (List.Subset.trans ho hknown) h
  exact ⟨⟨ht, fun _ _ => hgrow⟩, List.Subset.trans hknown hgrow⟩

section Steps

variable {known : List Nat} {Q : Outcome α → StdioWorld (ι ⊕ Nat) → Prop}
  {s : StdioWorld (ι ⊕ Nat)}

/-- What returns knows what it knew. -/
theorem exitSafe_ret {a : α} (hs : known ⊆ s.opened) :
    ExitSafe i (.ret a : Prog StdioOp α) (Keeping known) s :=
  fun _ hst _ => List.Subset.trans hs hst

/-- A program that starts with a step which concerns a known child, or none. -/
theorem exitSafe_concerned {o : StdioOp β} {k : β → Prog StdioOp α}
    (ho : o.concerns.toList ⊆ known) (hs : known ⊆ s.opened)
    (hk : ∀ b t, known ⊆ t.opened → ExitSafe i (k b) Q t) : ExitSafe i (.op o k) Q s := by
  intro s' hs' hinv e b t _ hexec
  obtain ⟨hkeeps, ht⟩ := exitProtocol_keeps (List.Subset.trans hs hs') hinv ho hexec
  exact ⟨hkeeps, hk b t ht⟩

/-- A program that starts with a step which concerns no child. -/
theorem exitSafe_op {o : StdioOp β} {k : β → Prog StdioOp α} (ho : o.concerns = none)
    (hs : known ⊆ s.opened) (hk : ∀ b t, known ⊆ t.opened → ExitSafe i (k b) Q t) :
    ExitSafe i (.op o k) Q s := by
  have hnone : o.concerns.toList ⊆ known := by
    rw [ho]
    exact List.nil_subset _
  exact exitSafe_concerned hnone hs hk

/-- A program that stores the stdin of a child. -/
theorem exitSafe_setStdin {child : Nat} {k : Unit → Prog StdioOp α} (hs : known ⊆ s.opened)
    (hk : ∀ b t, child :: known ⊆ t.opened → ExitSafe i (k b) Q t) :
    ExitSafe i (.op (.setStdin child) k) Q s := by
  intro s' hs' hinv e b t _ hexec
  obtain ⟨hkeeps, ht⟩ := exitProtocol_keeps (List.Subset.trans hs hs') hinv
    (List.nil_subset _) hexec
  have hchild : child ∈ t.opened := by
    simp only [stdioMachine, StdioWorld.exec] at hexec
    split at hexec <;> cases hexec
    exact List.mem_cons_self
  exact ⟨hkeeps, hk b t (List.cons_subset.mpr ⟨hchild, ht⟩)⟩

/-- A program that reads `stdin`: whatever child it finds there, its stdin was stored. -/
theorem exitSafe_loadStdin {k : Option Nat → Prog StdioOp α} (hs : known ⊆ s.opened)
    (hk : ∀ stdin t, stdin.toList ++ known ⊆ t.opened → ExitSafe i (k stdin) Q t) :
    ExitSafe i (.op .loadStdin k) Q s := by
  intro s' hs' hinv e b t _ hexec
  obtain ⟨hkeeps, ht⟩ := exitProtocol_keeps (List.Subset.trans hs hs') hinv
    (List.nil_subset _) hexec
  cases hexec
  exact ⟨hkeeps, hk _ _ (List.append_subset.mpr ⟨hinv.stdin, ht⟩)⟩

/-- A program under a guard. -/
theorem exitSafe_withLock {acquire release : StdioOp Unit} {body : Prog StdioOp α}
    (hacquire : acquire.concerns = none) (hrelease : release.concerns = none)
    (hs : known ⊆ s.opened)
    (hbody : ∀ t, known ⊆ t.opened → ExitSafe i body (Keeping known) t) :
    ExitSafe i (Prog.withLock acquire release body) (Keeping known) s := by
  have hnone : release.concerns.toList ⊆ known := by
    rw [hrelease]
    exact List.nil_subset _
  refine exitSafe_op hacquire hs fun _ t ht => Protocol.Safe.andFinally ?_
  refine (hbody t ht).mono fun x t hinv ht e _ u _ hexec => ?_
  obtain ⟨hkeeps, hu⟩ := exitProtocol_keeps ht hinv hnone hexec
  exact ⟨hkeeps, fun _ hu' _ => List.Subset.trans hu hu'⟩

/-- One program after another. -/
theorem exitSafe_bind {p : Prog StdioOp β} {f : β → Prog StdioOp α}
    (hp : ExitSafe i p (Keeping known) s) (hpanic : ∀ t, known ⊆ t.opened → Q .panicked t)
    (hf : ∀ a t, known ⊆ t.opened → ExitSafe i (f a) Q t) : ExitSafe i (p.bind f) Q s := by
  refine (hp.mono fun x t _ ht => ?_).bind
  cases x with
  | done a => exact hf a t ht
  | panicked => exact hpanic t ht

/-- What is only done while `connected` is set. -/
theorem exitSafe_ifConnected {p q : Prog StdioOp α} (hs : known ⊆ s.opened)
    (hp : ∀ t, known ⊆ t.opened → ExitSafe i p Q t)
    (hq : ∀ t, known ⊆ t.opened → ExitSafe i q Q t) :
    ExitSafe i (.op .isConnected fun connected => if connected then p else q) Q s := by
  refine exitSafe_op rfl hs fun connected t ht => ?_
  cases connected with
  | true => exact hp t ht
  | false => exact hq t ht

end Steps

variable {known : List Nat} {s : StdioWorld (ι ⊕ Nat)}

/-- A message is written to the child whose stdin was found. -/
theorem exitSafe_sendMessage (message : JsonRpcMessage) (hs : known ⊆ s.opened) :
    ExitSafe i (sendMessage message) (Keeping known) s := by
  refine exitSafe_withLock rfl rfl hs fun s hs => exitSafe_withLock rfl rfl hs fun s hs => ?_
  refine exitSafe_loadStdin hs fun stdin s hs => ?_
  cases stdin with
  | none => exact exitSafe_ret hs
  | some child =>
    have hdrop : known ⊆ [child] ++ known := List.subset_append_right _ _
    refine exitSafe_concerned (List.subset_append_left _ _) hs fun written s hs => ?_
    cases written with
    | error e => exact exitSafe_ret (List.Subset.trans hdrop hs)
    | ok =>
      refine exitSafe_op rfl hs fun flushed s hs => ?_
      cases flushed <;> exact exitSafe_ret (List.Subset.trans hdrop hs)

theorem exitSafe_awaitResponse (method : String) (timeoutSecs : Nat) (id : Int) (channel : Nat)
    (hs : known ⊆ s.opened) :
    ExitSafe i (b.awaitResponse method timeoutSecs id channel) (Keeping known) s := by
  refine exitSafe_op rfl hs fun awaited s hs => ?_
  cases awaited with
  | answered r => exact exitSafe_ret hs
  | dropped => exact exitSafe_ret hs
  | timedOut => exact exitSafe_op rfl hs fun _ s hs => exitSafe_ret hs

/-- A request is made for the connections that are up, an `initialize` request for its own
child, whose stdin is stored by then. -/
theorem exitSafe_sendRequest (method : String) (params : Option Value) (timeoutSecs : Nat)
    {handshake : Option Nat} (hhandshake : handshake.toList ⊆ known)
    (hs : known ⊆ s.opened) :
    ExitSafe i (b.sendRequest method params timeoutSecs handshake) (Keeping known) s := by
  refine exitSafe_op rfl hs fun id s hs => exitSafe_concerned hhandshake hs fun channel s hs => ?_
  refine exitSafe_bind (p := sendMessage _) (exitSafe_sendMessage _ hs) (fun _ ht => ht)
    fun sent s hs => ?_
  cases sent with
  | error e => exact exitSafe_ret hs
  | ok => exact exitSafe_awaitResponse b method timeoutSecs (asI64 id) channel hs

/-- A request that is not an `initialize`. -/
theorem exitSafe_plainRequest (method : String) (params : Option Value) (timeoutSecs : Nat)
    (hs : known ⊆ s.opened) :
    ExitSafe i (b.sendRequest method params timeoutSecs none) (Keeping known) s :=
  exitSafe_sendRequest b method params timeoutSecs (List.nil_subset _) hs

/-- A `connect` stores the stdin of its child before it registers a request and before it sets
`connected`. -/
theorem exitSafe_openChild (child : Nat) (hs : known ⊆ s.opened) :
    ExitSafe i (b.openChild child) (Keeping known) s := by
  have hdrop : known ⊆ child :: known := List.subset_cons_self _ _
  refine exitSafe_setStdin hs fun _ s hs => ?_
  refine exitSafe_op rfl hs fun _ s hs => exitSafe_op rfl hs fun _ s hs => ?_
  have hown : [child] ⊆ child :: known := List.cons_subset_cons child (List.nil_subset _)
  refine exitSafe_bind (p := b.sendRequest _ _ _ _) (exitSafe_sendRequest b _ _ _ hown hs)
    (fun _ ht => List.Subset.trans hdrop ht) fun answer s hs => ?_
  cases answer with
  | error e => exact exitSafe_ret (List.Subset.trans hdrop hs)
  | ok result =>
    dsimp only
    cases result.toInitializeResult with
    | none => exact exitSafe_ret (List.Subset.trans hdrop hs)
    | some init =>
      refine exitSafe_bind (exitSafe_sendMessage _ hs)
        (fun _ ht => List.Subset.trans hdrop ht) fun sent s hs => ?_
      cases sent with
      | error e => exact exitSafe_ret (List.Subset.trans hdrop hs)
      | ok =>
        refine exitSafe_op rfl hs fun _ s hs => ?_
        -- the child for which `connected` is set is the one whose stdin was stored first
        exact exitSafe_concerned hown hs fun _ s hs => exitSafe_ret (List.Subset.trans hdrop hs)

theorem exitSafe_connect (hs : known ⊆ s.opened) :
    ExitSafe i b.connect (Keeping known) s := by
  simp only [StdioBackend.connect, Prog.bind_eq, Prog.perform_bind]
  refine exitSafe_ifConnected hs (fun s hs => ?_) fun s hs => ?_
  · refine exitSafe_op rfl hs fun cached s hs => ?_
    cases cached <;> exact exitSafe_ret hs
  · cases b.transport with
    | http => exact exitSafe_ret hs
    | stdio command args env cwd =>
      refine exitSafe_op rfl hs fun spawned s hs => ?_
      cases spawned with
      | error e => exact exitSafe_ret hs
      | ok spawned =>
        dsimp only
        split
        · exact exitSafe_ret hs
        · split
          · exact exitSafe_ret hs
          · exact exitSafe_openChild b spawned.child hs

theorem exitSafe_disconnect (hs : known ⊆ s.opened) :
    ExitSafe i StdioBackend.disconnect (Keeping known) s := by
  refine exitSafe_op rfl hs fun _ s hs => exitSafe_op rfl hs fun _ s hs => ?_
  refine exitSafe_bind (p := StdioBackend.killChild) ?_ (fun _ ht => ht)
    fun _ s hs => exitSafe_ret hs
  refine exitSafe_withLock rfl rfl hs fun s hs => exitSafe_op rfl hs fun taken s hs => ?_
  cases taken with
  | none => exact exitSafe_ret hs
  | some child => exact exitSafe_op rfl hs fun _ s hs => exitSafe_ret hs

theorem exitSafe_listTools (hs : known ⊆ s.opened) :
    ExitSafe i b.listTools (Keeping known) s := by
  refine exitSafe_ifConnected hs (fun s hs => ?_) fun s hs => exitSafe_ret hs
  refine exitSafe_bind (exitSafe_plainRequest b _ _ _ hs) (fun _ ht => ht) fun answer s hs => ?_
  cases answer with
  | error e => exact exitSafe_ret hs
  | ok result =>
    dsimp only
    split <;> exact exitSafe_ret hs

theorem exitSafe_healthCheck (hs : known ⊆ s.opened) :
    ExitSafe i b.healthCheck (Keeping known) s := by
  refine exitSafe_ifConnected hs (fun s hs => ?_) fun s hs => exitSafe_ret hs
  refine exitSafe_bind (exitSafe_plainRequest b _ _ _ hs) (fun _ ht => ht) fun answer s hs => ?_
  cases answer <;> exact exitSafe_ret hs

/-- Every call, whatever it does with its result. -/
theorem exitSafe_call (c : StdioCall) (hs : known ⊆ s.opened) :
    ExitSafe i (b.call c) (Keeping known) s := by
  -- every call ends by dropping its result
  have hdone {γ : Type} {p : Prog StdioOp γ} (hp : ExitSafe i p (Keeping known) s) :
      ExitSafe i (p.bind fun _ => .ret ()) (Keeping known) s :=
    exitSafe_bind hp (fun _ ht => ht) fun _ _ ht => exitSafe_ret ht
  cases c with
  | connect => exact hdone (exitSafe_connect b hs)
  | disconnect => exact hdone (exitSafe_disconnect hs)
  | listTools => exact hdone (exitSafe_listTools b hs)
  | callTool name arguments timeoutSecs =>
    refine hdone (exitSafe_ifConnected hs (fun s hs => ?_) fun s hs => exitSafe_ret hs)
    exact exitSafe_plainRequest b "tools/call" (some (toolCallParams name arguments))
      timeoutSecs hs
  | request method params timeoutSecs =>
    refine hdone (exitSafe_ifConnected hs (fun s hs => ?_) fun s hs => exitSafe_ret hs)
    exact exitSafe_plainRequest b method params timeoutSecs hs
  | healthCheck => exact hdone (exitSafe_healthCheck b hs)

theorem exitSafe_calls (cs : List StdioCall) (hs : known ⊆ s.opened) :
    ExitSafe i (b.calls cs) (Keeping known) s := by
  induction cs generalizing s with
  | nil => exact exitSafe_ret hs
  | cons c cs ih =>
    exact exitSafe_bind (exitSafe_call b c hs) (fun _ ht => ht) fun _ _ ht => ih ht

theorem exitSafe_handleLine (line : String) (hs : known ⊆ s.opened) :
    ExitSafe i (b.handleLine line) (Keeping known) s := by
  rw [StdioBackend.handleLine]
  split
  · exact exitSafe_ret hs
  · split
    · exact exitSafe_op rfl hs fun _ s hs => exitSafe_ret hs
    · exact exitSafe_op rfl hs fun _ s hs => exitSafe_ret hs
    · exact exitSafe_ret hs

theorem exitSafe_readResponses (child : Nat) (output : List String) (hs : known ⊆ s.opened) :
    ExitSafe i (b.readResponses child output) (Keeping known) s := by
  induction output generalizing s with
  | nil => exact exitSafe_op rfl hs fun _ s hs => exitSafe_ret hs
  | cons line lines ih =>
    refine exitSafe_op rfl hs fun _ s hs => ?_
    exact exitSafe_bind (p := b.handleLine line) (exitSafe_handleLine b line hs)
      (fun _ ht => ht) fun _ _ ht => ih ht

theorem exitSafe_readerTask (child : Nat) (output : List String) (hs : known ⊆ s.opened) :
    ExitSafe i (b.readerTask child output) (Keeping known) s := by
  refine exitSafe_op rfl hs fun _ s hs => ?_
  refine exitSafe_bind (p := b.readResponses child output)
    (exitSafe_readResponses b child output hs) (fun _ ht => ht) fun _ s hs => ?_
  exact exitSafe_op rfl hs fun _ s hs => exitSafe_op rfl hs fun _ s hs => exitSafe_ret hs

end Tasks

/-! ## The runs -/

/-- A backend that has just been created keeps the invariant, and every task keeps it. -/
theorem exitHolds_pool (b : StdioBackend) (callers : ι → List StdioCall)
    (output : Nat → List String) :
    Protocol.Holds (exitProtocol ι) (stdioMachine (ι ⊕ Nat)) (fun _ _ _ _ _ => True)
      (fun _ => Keeping []) (b.pool callers output) := by
  refine ⟨⟨List.nil_subset _, fun _ => rfl, fun p hp => (by cases hp), List.nil_subset _,
    List.nil_subset _⟩, fun i => ?_⟩
  cases i with
  | inl i => exact exitSafe_calls b (callers i) (List.nil_subset _)
  | inr child => exact exitSafe_readerTask b child (output child) (List.nil_subset _)

/-- Where an exit is prompt, it spares the later connections. -/
theorem sparesLater_of_prompt {i : ι ⊕ Nat} {o : StdioOp β} {e : StdioChoice}
    {s : StdioWorld (ι ⊕ Nat)} (hs : ExitInv s) (h : PromptExit i β o e s) :
    SparesLater i β o e s := by
  cases o with
  | markDown child =>
    obtain h | h := h
    · -- nothing is up any more
      intro n hn
      rw [hs.down h] at hn
      cases hn
    · exact fun n hn => h n (hs.up hn)
  | drain child error =>
    obtain h | h := h
    · -- nothing is pending any more
      intro p hp
      rw [h] at hp
      cases hp
    · exact fun p hp n hn => h n (hs.belongsTo hp hn)
  | _ => trivial

/-- **A prompt exit spares every later connection**: in a run in which every exit of a reader task
comes before any later child's stdin is stored or finds nothing to do, no exit clears `connected`
for the connection of a later child or fails a pending request that belongs to one. The exit looks
at no owner: it clears what it finds, so a reader task that is slow to notice does so to the
connection of the next child. The condition is on the order of the exit and of the next store, not
on what the exit does. -/
theorem exit_spares_later [DecidableEq ι] (b : StdioBackend) (callers : ι → List StdioCall)
    (output : Nat → List String) (schedule : List ((ι ⊕ Nat) × StdioChoice))
    (hprompt : (stdioMachine (ι ⊕ Nat)).Meets PromptExit schedule (b.pool callers output)) :
    (stdioMachine (ι ⊕ Nat)).Meets SparesLater schedule (b.pool callers output) := by
  have hinv := (exitHolds_pool b callers output).meets
    ((stdioMachine (ι ⊕ Nat)).meets_true schedule _)
  have hboth := Machine.Meets.and _ hinv hprompt
  exact Machine.Meets.mono _ (fun i β o e s h => sparesLater_of_prompt h.1.1 h.2) hboth

/-! ## A reader task that exits late -/

/-- The answer of a child to its `initialize` request, whose id is a digit. -/
def initializeLine (id : String) : String :=
  "\x7b\"jsonrpc\":\"2.0\",\"id\":" ++ id ++ ",\"result\":\x7b\"protocolVersion\":\"2024-11-05\"," ++
  "\"serverInfo\":\x7b\"name\":\"api\",\"version\":\"1\"\x7d,\"capabilities\":\x7b\x7d\x7d\x7d"

/-- The JSON of that line. -/
def initializeLineValue (id : Int) : Value :=
  .object [("jsonrpc", .string "2.0"), ("id", .number (.int id)),
    ("result", .object [("protocolVersion", .string "2024-11-05"),
      ("serverInfo", .object [("name", .string "api"), ("version", .string "1")]),
      ("capabilities", .object [])])]

/-- A backend with a child process, and `serde_json` on the answers of the first two children. -/
def sampleStdio : StdioBackend where
  id := "api"
  transport := .stdio "api-server" [] [] none
  connectTimeoutSecs := 30
  callTimeoutSecs := 60
  serde :=
    { fromSlice := fun text =>
        if text = initializeLine "0" then .ok (initializeLineValue 0)
        else if text = initializeLine "1" then .ok (initializeLineValue 1)
        else .error "expected value at line 1 column 1"
      rejects := fun _ => "invalid type" }

/-- One caller reconnects the backend. -/
def restartCalls (_ : Unit) : List StdioCall := [.connect, .disconnect, .connect]

/-- Each child answers its `initialize`. -/
def restartOutput (child : Nat) : List String := [initializeLine (if child = 0 then "0" else "1")]

/-- The caller and the reader tasks of the two children. -/
def restartPool : Pool StdioOp (Unit ⊕ Nat) (StdioWorld (Unit ⊕ Nat)) Unit :=
  sampleStdio.pool restartCalls restartOutput

/-- A task takes its turns, and nothing goes wrong around it. -/
def quietTurns (i : Unit ⊕ Nat) (n : Nat) : List ((Unit ⊕ Nat) × StdioChoice) :=
  Machine.turns i (List.replicate n {})

/-- A connection is set up: the caller registers and writes its `initialize`, the reader task
hands over the answer, and the caller goes on. -/
def connectTurns (child : Nat) : List ((Unit ⊕ Nat) × StdioChoice) :=
  quietTurns (.inl ()) 14 ++ quietTurns (.inr child) 3 ++ quietTurns (.inl ()) 10

/-- The first child's output ends when the second connection is up. -/
def lateExit : List ((Unit ⊕ Nat) × StdioChoice) :=
  connectTurns 0 ++ quietTurns (.inl ()) 6 ++ connectTurns 1 ++ quietTurns (.inr 0) 2

/-- The first child's output ends before the second connection is begun. -/
def timelyExit : List ((Unit ⊕ Nat) × StdioChoice) :=
  connectTurns 0 ++ quietTurns (.inl ()) 6 ++ quietTurns (.inr 0) 3 ++ connectTurns 1

instance (i : ι ⊕ Nat) (o : StdioOp β) (e : StdioChoice) (s : StdioWorld (ι ⊕ Nat)) :
    Decidable (SparesLater i β o e s) := by
  apply StdioOp.casesOn (motive := fun β o => Decidable (SparesLater i β o e s)) o <;> intros
    <;> unfold SparesLater <;> infer_instance

instance (i : ι ⊕ Nat) (o : StdioOp β) (e : StdioChoice) (s : StdioWorld (ι ⊕ Nat)) :
    Decidable (PromptExit i β o e s) := by
  have : Decidable (s.pending = []) := decidable_of_iff s.pending.isEmpty List.isEmpty_iff
  apply StdioOp.casesOn (motive := fun β o => Decidable (PromptExit i β o e s)) o <;> intros
    <;> unfold PromptExit <;> infer_instance

/-- Where the run with the timely exit leads, it has spared the second connection. -/
theorem timely_exit_spares :
    (stdioMachine (Unit ⊕ Nat)).Meets SparesLater timelyExit restartPool ∧
      ((stdioMachine (Unit ⊕ Nat)).play timelyExit restartPool).map (·.shared.connected) =
        some true :=
  ⟨exit_spares_later sampleStdio restartCalls restartOutput timelyExit (by decide +kernel),
    by decide +kernel⟩

/-- **A late exit takes down the next connection**: after `disconnect` and `connect` the first
child's reader task exits and clears `connected`, which the second child's `connect` has set. -/
theorem late_exit_takes_down :
    ¬ (stdioMachine (Unit ⊕ Nat)).Meets SparesLater lateExit restartPool ∧
      ((stdioMachine (Unit ⊕ Nat)).play lateExit restartPool).map
        (fun c => ((c.task (.inl ())).result, c.shared.child, c.shared.connected)) =
        some (some (), some 1, false) := by
  decide +kernel

end HeadlessMcp
