import HeadlessMcp.Async.Rely
import HeadlessMcp.Secrets.World

/-!
# Several processes on one secrets file

The lock of a store is the lock of one process. An update that reads the file, lets another
process replace it and then writes it back drops what the other process has written.

`stale` says from the history of a run who is about to do that. In a run in which nobody writes
a stale file back, the update of every operation that has returned is in the file, as long as
no other operation updates the same key.
-/

namespace HeadlessMcp

open Async Machine

/-! ## Reading a history -/

/-- An operation that looks at the file. -/
def SecretOp.looks {β : Type} : SecretOp β → Bool
  | .pathExists | .readPath => true
  | _ => false

/-- An operation that has replaced the file. -/
def SecretOp.replaces {β : Type} : SecretOp β → β → Bool
  | .persist _, .ok () => true
  | _, _ => false

/-- An operation that is about to replace the file. -/
def SecretOp.persists {β : Type} : SecretOp β → Bool
  | .persist _ => true
  | _ => false

/-- A probe of the path. -/
def SecretOp.probes {β : Type} : SecretOp β → Bool
  | .pathExists => true
  | _ => false

section Processes

variable {π ι : Type} [DecidableEq π] [DecidableEq ι] (crates : StoreCrates) (proc : ι → π)

/-- Another process has replaced the file since the task looked at it. What has been written since
then it does not know of. -/
def stale (i : ι) : SecretHistory ι → Bool
  | [] => false
  | p :: l =>
    if p.caller = i ∧ p.op.looks then false
    else (decide (proc p.caller ≠ proc i) && p.op.replaces p.answer) || stale i l

/-- What the file means; a file that is not there is empty. -/
def StoreCrates.content (disk : Option String) : SecretResult StoreFile :=
  match disk with
  | none => .ok ∅
  | some bytes => crates.decodeFile bytes

/-- The update is in the file. It can be read from it, whatever else the file holds. -/
def Present (update : SecretUpdate) (s : SecretRun π ι) : Prop :=
  ∃ file, crates.content s.state.disk = .ok file ∧ update.In crates file

/-! ## Two conditions -/

/-- Nobody replaces the file when another process has done so since it looked at it. -/
def Undisturbed : Rule SecretOp ι SecretChoice (SecretRun π ι) :=
  fun i _ o _ s => o.persists = true → stale proc i s.log = false

/-- A file that is there can be probed. -/
def ProbesSucceed (π ι : Type) : Rule SecretOp ι SecretChoice (SecretRun π ι) :=
  fun _ _ o e s => o.probes = true → e.ioError = none ∨ s.state.disk = none

/-- Both of them. -/
abbrev SecretRule : Rule SecretOp ι SecretChoice (SecretRun π ι) :=
  fun i β o e s => Undisturbed proc i β o e s ∧ ProbesSucceed π ι i β o e s

instance (i : ι) (β : Type) (o : SecretOp β) (e : SecretChoice) (s : SecretRun π ι) :
    Decidable (Undisturbed proc i β o e s) :=
  inferInstanceAs (Decidable (o.persists = true → stale proc i s.log = false))

instance (i : ι) (β : Type) (o : SecretOp β) (e : SecretChoice) (s : SecretRun π ι) :
    Decidable (ProbesSucceed π ι i β o e s) :=
  inferInstanceAs (Decidable (o.probes = true → e.ioError = none ∨ s.state.disk = none))

/-! ## The discipline -/

/-- What an operation can expect of the others: while it has the lock of its process, they
replace the file only by making its own look at it stale, and its update stays in the file
when nobody else updates the key. -/
structure Expects (updates : ι → SecretUpdate) (i : ι) (s t : SecretRun π ι) : Prop where
  locked : s.state.writeHolder (proc i) = some i → t.state.writeHolder (proc i) = some i ∧
    (stale proc i t.log = false → stale proc i s.log = false ∧ t.state.disk = s.state.disk)
  present : (∀ j, j ≠ i → (updates j).key ≠ (updates i).key) →
    Present crates (updates i) s → Present crates (updates i) t

theorem Expects.trans {updates : ι → SecretUpdate} {i : ι} {s t u : SecretRun π ι}
    (hst : Expects crates proc updates i s t) (htu : Expects crates proc updates i t u) :
    Expects crates proc updates i s u := by
  refine ⟨fun h => ?_, fun hkey h => htu.present hkey (hst.present hkey h)⟩
  obtain ⟨ht, hst⟩ := hst.locked h
  obtain ⟨hu, htu⟩ := htu.locked ht
  refine ⟨hu, fun hstale => ?_⟩
  obtain ⟨hstale, hdisk⟩ := htu hstale
  exact ⟨(hst hstale).1, hdisk.trans (hst hstale).2⟩

/-- The discipline of the updates. -/
def secretProtocol (updates : ι → SecretUpdate) : Protocol ι (SecretRun π ι) where
  inv _ := True
  rely := Expects crates proc updates
  rely_refl _ _ := ⟨fun h => ⟨h, fun h => ⟨h, rfl⟩⟩, fun _ h => h⟩
  rely_trans _ _ _ _ := Expects.trans crates proc

variable {crates proc} {updates : ι → SecretUpdate} {i j : ι} {β : Type} {o : SecretOp β}
  {e : SecretChoice} {s t : SecretRun π ι} {b : β} {l : SecretHistory ι}

/-- The operations that do not change the file or the lock. -/
def SecretOp.Quiet {β : Type} : SecretOp β → Prop
  | .lockWrite | .unlockWrite | .persist _ => False
  | _ => True

omit [DecidableEq ι] in
theorem exec_reading {s t : SecretWorld π ι} (ho : o.Quiet)
    (h : (secretMachine proc).exec i β o e s = some (b, t)) : t = s ∧ o.replaces b = false := by
  cases o with
  | pathExists => cases h; exact ⟨rfl, rfl⟩
  | fillBytes => cases h; exact ⟨rfl, rfl⟩
  | readPath =>
    simp only [secretMachine, SecretWorld.exec] at h
    split at h <;> (cases h; exact ⟨rfl, rfl⟩)
  | prepareTemp contents =>
    simp only [secretMachine, SecretWorld.exec] at h
    split at h <;> (cases h; exact ⟨rfl, rfl⟩)
  | _ => exact False.elim ho

/-- An operation that does not replace the file makes nobody else's look stale. -/
theorem stale_cons (h : o.replaces b = false) (hij : i ≠ j ∨ o.looks = false) :
    stale proc j (⟨i, o, b⟩ :: l) = stale proc j l := by
  have hlook : ¬ (i = j ∧ o.looks = true) := by
    rintro ⟨rfl, hlook⟩
    rcases hij with hij | hij
    · exact hij rfl
    · rw [hlook] at hij
      cases hij
  rw [stale, if_neg hlook, h, Bool.and_false, Bool.false_or]

/-- An operation on the same file and with the same lock. -/
theorem expects_same (hdisk : t.state.disk = s.state.disk)
    (hholder : s.state.writeHolder (proc j) = some j → t.state.writeHolder (proc j) = some j)
    (hlog : t.log = ⟨i, o, b⟩ :: s.log) (h : o.replaces b = false) (hij : i ≠ j ∨ o.looks = false) :
    Expects crates proc updates j s t := by
  refine ⟨fun hheld => ⟨hholder hheld, fun hstale => ⟨?_, hdisk⟩⟩, fun _ hpresent => ?_⟩
  · rwa [hlog, stale_cons h hij] at hstale
  · rw [Present, hdisk]
    exact hpresent

/-! ## The updates -/

/-- Safe under the discipline, in runs that meet both conditions. -/
abbrev SecretSafe {α : Type} (crates : StoreCrates) (proc : ι → π) (updates : ι → SecretUpdate)
    (i : ι) (p : Prog SecretOp α) (Q : Outcome α → SecretRun π ι → Prop) (s : SecretRun π ι) :
    Prop :=
  (secretProtocol crates proc updates).Safe (secretMachine proc).recorded (SecretRule proc) i p Q s

/-- The operation has the lock of its process. No other task of its process updates the file
meanwhile. -/
def Held (proc : ι → π) (i : ι) (s : SecretRun π ι) : Prop :=
  s.state.writeHolder (proc i) = some i

/-- It has the lock, and unless its look is stale the file is what it has read. -/
def Seen (crates : StoreCrates) (proc : ι → π) (i : ι) (file : StoreFile) (s : SecretRun π ι) :
    Prop :=
  Held proc i s ∧ (stale proc i s.log = false → crates.content s.state.disk = .ok file)

theorem stable_held : (secretProtocol crates proc updates).Stable i (Held (π := π) proc i) :=
  fun _ _ hr _ h => (hr.locked h).1

theorem stable_seen {file : StoreFile} :
    (secretProtocol crates proc updates).Stable i (Seen (π := π) crates proc i file) := by
  rintro s t hr - ⟨hheld, hseen⟩
  obtain ⟨ht, hdisk⟩ := hr.locked hheld
  refine ⟨ht, fun hstale => ?_⟩
  obtain ⟨hstale, hsame⟩ := hdisk hstale
  rw [hsame]
  exact hseen hstale

/-- A quiet operation is nobody's business. -/
theorem keeps_quiet (ho : o.Quiet)
    (he : (secretMachine proc).recorded.exec i β o e s = some (b, t)) :
    (secretProtocol crates proc updates).Keeps i s t := by
  obtain ⟨hexec, hlog⟩ := Machine.recorded_exec he
  obtain ⟨hstate, hreplaces⟩ := exec_reading ho hexec
  refine ⟨trivial, fun j hj => expects_same ?_ ?_ hlog hreplaces (.inl (Ne.symm hj))⟩
  · rw [hstate]
  · rw [hstate]
    exact id

section Walk

variable {α : Type} {Q : Outcome α → SecretRun π ι → Prop} {file : StoreFile}

/-- A quiet operation that does not look at the file keeps what is known of it. -/
theorem safe_readingOp {k : β → Prog SecretOp α} (ho : o.Quiet) (hlook : o.looks = false)
    (hs : Seen crates proc i file s)
    (hk : ∀ b t, Seen crates proc i file t → SecretSafe crates proc updates i (k b) Q t) :
    SecretSafe crates proc updates i (.op o k) Q s := by
  refine Protocol.safe_op fun s' hr hi e b t _ he => ⟨keeps_quiet ho he, hk b t ?_⟩
  obtain ⟨hexec, hlog⟩ := Machine.recorded_exec he
  obtain ⟨hstate, hreplaces⟩ := exec_reading ho hexec
  obtain ⟨hheld, hseen⟩ := stable_seen s s' hr hi hs
  refine ⟨?_, fun hstale => ?_⟩
  · rw [Held, hstate]
    exact hheld
  · rw [hlog, stale_cons hreplaces (.inr hlook)] at hstale
    rw [hstate]
    exact hseen hstale

/-- Reading the file. -/
theorem safe_readFile (hs : Held proc i s) :
    SecretSafe crates proc updates i crates.readFile
      (fun x t => Held proc i t ∧ ∀ file, x = .done (.ok file) → Seen crates proc i file t) s := by
  simp only [StoreCrates.readFile, Prog.bind_eq, Prog.perform_bind]
  refine Protocol.safe_op fun s' hr hi e found t hC he => ?_
  refine ⟨keeps_quiet (o := .pathExists) trivial he, ?_⟩
  have hheld : Held proc i s' := stable_held s s' hr hi hs
  obtain ⟨hexec, hlog⟩ := Machine.recorded_exec he
  obtain ⟨hfound, hstate⟩ := Prod.mk.inj (Option.some.inj hexec)
  have hheld' : Held proc i t := by
    rw [Held, ← hstate]
    exact hheld
  cases found with
  | false =>
    -- a probe that finds nothing is right, so the file is empty
    have hnone : s'.state.disk = none := by
      rcases hC.2 rfl with herr | hnone
      · rw [herr] at hfound
        simpa using hfound
      · exact hnone
    have hseen : Seen crates proc i ∅ t := by
      refine ⟨hheld', fun _ => ?_⟩
      rw [← hstate, hnone]
      rfl
    intro u hr hi
    refine ⟨stable_held t u hr hi hheld', fun file h => ?_⟩
    cases h
    exact stable_seen t u hr hi hseen
  | true =>
    refine Protocol.safe_op fun t' hr hi e bytes u _ he => ?_
    refine ⟨keeps_quiet (o := .readPath) trivial he, ?_⟩
    have hheld : Held proc i t' := stable_held t t' hr hi hheld'
    obtain ⟨hexec, hlog⟩ := Machine.recorded_exec he
    obtain ⟨hstate, -⟩ := exec_reading (o := .readPath) trivial hexec
    have hheld' : Held proc i u := by
      rw [Held, hstate]
      exact hheld
    rcases bytes with err | bytes
    · exact fun v hr hi => ⟨stable_held u v hr hi hheld', fun file h => by cases h⟩
    · have hdisk : t'.state.disk = some bytes := by
        simp only [secretMachine, SecretWorld.exec] at hexec
        split at hexec
        · cases hexec
        · cases hexec
        · rename_i hdisk
          rw [hdisk, Except.ok.inj (Prod.mk.inj (Option.some.inj hexec)).1]
      intro v hr hi
      refine ⟨stable_held u v hr hi hheld', fun file h => ?_⟩
      refine stable_seen u v hr hi ⟨hheld', fun _ => ?_⟩
      rw [hstate, hdisk]
      exact Outcome.done.inj h

/-- The postcondition of an update: once it has returned, it is in the file, unless somebody
else updates its key. -/
def Updated (crates : StoreCrates) (updates : ι → SecretUpdate) (i : ι)
    (x : Outcome (SecretResult Unit)) (s : SecretRun π ι) : Prop :=
  x = .done (.ok ()) → (∀ j, j ≠ i → (updates j).key ≠ (updates i).key) →
    Present crates (updates i) s

/-- The change that an update makes to what it has read. All other keys keep what was stored for
them, byte for byte. -/
structure Changes (crates : StoreCrates) (update : SecretUpdate) (file file' : StoreFile) : Prop where
  mine : update.In crates file'
  others : ∀ key, key ≠ update.key → file'.lookup key = file.lookup key

/-- The update of another key stays in a file. -/
theorem Changes.other {update update' : SecretUpdate} {file file' : StoreFile}
    (h : Changes crates update file file') (hkey : update'.key ≠ update.key)
    (hin : update'.In crates file) : update'.In crates file' := by
  have hlookup := h.others update'.key hkey
  cases update' with
  | set key value =>
    obtain ⟨nonce, stored, hstored, hin⟩ := hin
    exact ⟨nonce, stored, hstored, hlookup.trans hin⟩
  | delete key => exact hlookup.trans hin

/-- Replacing the file by what was read with the update made: the step at which another
process's update would be lost. -/
theorem keeps_persist {file' : StoreFile} {json : String} {r : Except String Unit}
    (hjson : crates.content (some json) = .ok file') (hs : Seen crates proc i file s)
    (hchange : Changes crates (updates i) file file') (hfresh : stale proc i s.log = false)
    (he : (secretMachine proc).recorded.exec i _ (.persist json) e s = some (r, t)) :
    (secretProtocol crates proc updates).Keeps i s t ∧ Held proc i t ∧
      (r = .ok () → Present crates (updates i) t) := by
  obtain ⟨hexec, hlog⟩ := Machine.recorded_exec he
  obtain ⟨hheld, hseen⟩ := hs
  have hmine : ∀ j, j ≠ i → s.state.writeHolder (proc j) = some j → proc i ≠ proc j := by
    intro j hj h hsame
    rw [← hsame, show s.state.writeHolder (proc i) = some i from hheld] at h
    exact hj (Option.some.inj h).symm
  rcases r with err | _
  · -- the rename has failed
    have hstate : t.state = s.state := by
      simp only [secretMachine, SecretWorld.exec] at hexec
      split at hexec
      · exact (Prod.mk.inj (Option.some.inj hexec)).2.symm
      · cases (Prod.mk.inj (Option.some.inj hexec)).1
    refine ⟨⟨trivial, fun j hj => expects_same ?_ ?_ hlog rfl (.inl (Ne.symm hj))⟩, ?_, nofun⟩
    · rw [hstate]
    · rw [hstate]
      exact id
    · rw [Held, hstate]
      exact hheld
  · have hstate : t.state = { s.state with disk := some json } := by
      simp only [secretMachine, SecretWorld.exec] at hexec
      split at hexec
      · cases (Prod.mk.inj (Option.some.inj hexec)).1
      · exact (Prod.mk.inj (Option.some.inj hexec)).2.symm
    have hcontent : crates.content t.state.disk = .ok file' := by
      rw [hstate]
      exact hjson
    refine ⟨⟨trivial, fun j hj => ⟨fun h => ⟨?_, fun hstale => ?_⟩, fun hkey hpresent => ?_⟩⟩,
      ?_, fun _ => ⟨file', hcontent, hchange.mine⟩⟩
    · rw [hstate]
      exact h
    · -- whoever has looked at the file in another process has a stale look now
      rw [hlog, stale, if_neg fun h => hj h.1.symm, decide_eq_true (hmine j hj h)] at hstale
      cases hstale
    · obtain ⟨file'', hfile, hin⟩ := hpresent
      rw [hseen hfresh] at hfile
      cases hfile
      exact ⟨file', hcontent, hchange.other (hkey i (Ne.symm hj)).symm hin⟩
    · rw [Held, hstate]
      exact hheld

/-- Writing the changed file. -/
theorem safe_writeFile {file' : StoreFile}
    (hjson : ∀ file json, crates.render file = .ok json →
      json ≠ "" ∧ crates.parse json = .ok file)
    (hs : Seen crates proc i file s) (hchange : Changes crates (updates i) file file') :
    SecretSafe crates proc updates i (crates.writeFile file')
      (fun x t => Held proc i t ∧ Updated crates updates i x t) s := by
  unfold StoreCrates.writeFile
  have hend : ∀ (err : SecretError) (u : SecretRun π ι), Held proc i u →
      SecretSafe crates proc updates i (.ret (.error err))
        (fun x t => Held proc i t ∧ Updated crates updates i x t) u :=
    fun err u hu v hr hi => ⟨stable_held u v hr hi hu, fun h => by cases h⟩
  -- the file cannot be printed; or it is, and is what is read back
  split
  · exact hend _ s hs.1
  · rename_i json hrender
    obtain ⟨hne, hparse⟩ := hjson file' json hrender
    have hcontent : crates.content (some json) = .ok file' := by
      rw [StoreCrates.content, StoreCrates.decodeFile, if_neg hne, hparse]
    simp only [writeAtomic, Prog.bind_eq, Prog.perform_bind]
    refine safe_readingOp trivial rfl hs fun r t ht => ?_
    -- the temporary file cannot be made; or it takes the place of the old one
    rcases r with err | _
    · exact hend _ t ht.1
    · refine Protocol.safe_op fun t' hr hi e r u hC he => ?_
      obtain ⟨hkeeps, hheld, hpresent⟩ :=
        keeps_persist hcontent (stable_seen t t' hr hi ht) hchange (hC.1 rfl) he
      refine ⟨hkeeps, ?_⟩
      rcases r with err | _
      · exact hend _ u hheld
      · intro v hr hi
        exact ⟨stable_held u v hr hi hheld, fun _ hkey => hr.present hkey (hpresent rfl)⟩

/-- Read the file, make the update, write it back. -/
theorem safe_rewrite {change : StoreFile → Prog SecretOp (SecretResult StoreFile)}
    (hjson : ∀ file json, crates.render file = .ok json →
      json ≠ "" ∧ crates.parse json = .ok file)
    (hchange : ∀ file s, Seen crates proc i file s →
      SecretSafe crates proc updates i (change file) (fun x t => Seen crates proc i file t ∧
        ∀ file', x = .done (.ok file') → Changes crates (updates i) file file') s) :
    SecretSafe crates proc updates i (crates.rewrite change) (Updated crates updates i) s := by
  unfold StoreCrates.rewrite Prog.withLock
  refine Protocol.safe_op fun s' hr hi e _ t _ he => ?_
  obtain ⟨hexec, hlog⟩ := Machine.recorded_exec he
  -- the lock of the process was free, and is its own now
  have hfree : s'.state.writeHolder (proc i) = none ∧ t.state = { s'.state with
      writeHolder := Function.update s'.state.writeHolder (proc i) (some i) } := by
    simp only [secretMachine, SecretWorld.exec] at hexec
    split at hexec
    · exact ⟨‹_›, (Prod.mk.inj (Option.some.inj hexec)).2.symm⟩
    · cases hexec
  obtain ⟨hnone, hstate⟩ := hfree
  have hheld : Held proc i t := by
    rw [Held, hstate]
    exact Function.update_self ..
  have hkeeps : (secretProtocol crates proc updates).Keeps i s' t := by
    -- the other tasks of the process have to wait; those of others do not notice
    refine ⟨trivial, fun j hj => expects_same ?_ (fun h => ?_) hlog rfl (.inr rfl)⟩
    · rw [hstate]
    · have hne : proc j ≠ proc i := fun hsame => by rw [hsame, hnone] at h; cases h
      rw [hstate]
      exact (Function.update_of_ne hne ..).trans h
  refine ⟨hkeeps, Protocol.Safe.andFinally ?_⟩
  refine Protocol.Safe.mono (Q := fun x t => Held proc i t ∧ Updated crates updates i x t) ?_
    fun x u _ hx e _ v _ he => ?_
  · have hend : ∀ (err : SecretError) (u : SecretRun π ι), Held proc i u →
        SecretSafe crates proc updates i (.ret (.error err))
          (fun x t => Held proc i t ∧ Updated crates updates i x t) u :=
      fun err u hu v hr hi => ⟨stable_held u v hr hi hu, fun h => by cases h⟩
    refine Protocol.Safe.bind (Protocol.Safe.mono (safe_readFile hheld) fun x u _ hx => ?_)
    -- nothing can be read; or what is read is changed and written back
    rcases x with (err | file) | _
    · exact hend err u hx.1
    · refine Protocol.Safe.bind (Protocol.Safe.mono (hchange file u (hx.2 file rfl))
        fun y v _ hy => ?_)
      rcases y with (err | file') | _
      · exact hend err v hy.1.1
      · exact safe_writeFile hjson hy.1 (hy.2 file' rfl)
      · exact ⟨hy.1.1, fun h => by cases h⟩
    · exact ⟨hx.1, fun h => by cases h⟩
  obtain ⟨hexec, hlog⟩ := Machine.recorded_exec he
  obtain ⟨-, hstate⟩ := Prod.mk.inj (Option.some.inj hexec)
  refine ⟨⟨trivial, fun j hj => expects_same ?_ (fun h => ?_) hlog rfl (.inr rfl)⟩,
    fun w hr _ hdone hkey => hr.present hkey ?_⟩
  · rw [← hstate]
  · -- no other task of the process holds the lock
    have hne : proc j ≠ proc i := by
      intro hsame
      rw [hsame, show u.state.writeHolder (proc i) = some i from hx.1] at h
      exact hj (Option.some.inj h).symm
    rw [← hstate]
    exact (Function.update_of_ne hne ..).trans h
  · rw [Present, ← hstate]
    exact hx.2 hdone hkey

/-- Every update keeps the discipline. -/
theorem safe_update (hjson : ∀ file json, crates.render file = .ok json →
      json ≠ "" ∧ crates.parse json = .ok file) :
    SecretSafe crates proc updates i ((updates i).run crates) (Updated crates updates i) s := by
  have hinvalid : ∀ err : SecretError, SecretSafe crates proc updates i (.ret (.error err))
      (Updated crates updates i) s := fun err t _ _ h => by cases h
  cases hupdate : updates i with
  -- the cipher fails, or the sealed secret is in the file and the others are as they were
  | set key value =>
    simp only [SecretUpdate.run, StoreCrates.set]
    split
    · exact hinvalid _
    · refine safe_rewrite hjson fun file t ht => ?_
      simp only [StoreCrates.encryptSecret, Prog.bind_eq, Prog.perform_bind, Prog.op_bind]
      refine safe_readingOp trivial rfl ht fun nonce u hu => ?_
      rcases nonce with _ | nonce
      · exact fun v hr hi => ⟨stable_seen u v hr hi hu, fun _ h => by cases h⟩
      · dsimp only
        cases hsealed : crates.sealSecret nonce value.toUTF8 with
        | none => exact fun v hr hi => ⟨stable_seen u v hr hi hu, fun _ h => by cases h⟩
        | some stored =>
          intro v hr hi
          refine ⟨stable_seen u v hr hi hu, fun file' h => ?_⟩
          cases h
          rw [hupdate]
          refine ⟨⟨nonce, stored, hsealed, Finmap.lookup_insert _⟩, fun key' hkey => ?_⟩
          exact Finmap.lookup_insert_of_ne _ hkey
  -- the secret is gone, and the others are as they were
  | delete key =>
    simp only [SecretUpdate.run, StoreCrates.delete]
    split
    · exact hinvalid _
    · refine safe_rewrite hjson fun file t ht u hr hi => ?_
      refine ⟨stable_seen t u hr hi ht, fun file' h => ?_⟩
      cases h
      rw [hupdate]
      exact ⟨Finmap.lookup_erase .., fun key' hkey => Finmap.lookup_erase_ne hkey⟩

end Walk

/-- Any number of updates in any number of processes. -/
def secretPool (crates : StoreCrates) (start : SecretWorld π ι) (updates : ι → SecretUpdate) :
    Pool SecretOp ι (SecretRun π ι) (SecretResult Unit) :=
  ⟨⟨start, []⟩, fun i => (updates i).run crates⟩

/-- **No update is lost**: whatever any number of processes do at the same time, the update of
every operation that has returned is in the file, if no other operation updates its key, in
every run in which nobody replaces the file after another process has done so since it looked
at it, and no probe of the file fails. -/
theorem updates_are_kept
    (hjson : ∀ file json, crates.render file = .ok json →
      json ≠ "" ∧ crates.parse json = .ok file)
    {start : SecretWorld π ι} {ls : List (ι × SecretChoice)}
    {c : Pool SecretOp ι (SecretRun π ι) (SecretResult Unit)}
    (hundisturbed : (secretMachine proc).recorded.Meets (Undisturbed proc) ls
      (secretPool crates start updates))
    (hprobes : (secretMachine proc).recorded.Meets (ProbesSucceed π ι) ls
      (secretPool crates start updates))
    (hp : (secretMachine proc).recorded.play ls (secretPool crates start updates) = some c)
    (hkey : ∀ j, j ≠ i → (updates j).key ≠ (updates i).key)
    (hdone : c.task i = .ret (.ok ())) : Present crates (updates i) c.shared := by
  have hholds : Protocol.Holds (secretProtocol crates proc updates) (secretMachine proc).recorded
      (SecretRule proc) (Updated crates updates) (secretPool crates start updates) :=
    ⟨trivial, fun i => safe_update hjson⟩
  exact (hholds.play (hundisturbed.and _ hprobes) hp).result hdone rfl hkey

end Processes

/-! ## Two processes -/

/-- Two nonces, and what AES-256-GCM makes of the plaintexts `1` and `2` under them with the
master key `0123456789abcdef` repeated four times. -/
def nonceA : Nonce := .replicate 12 0

def nonceB : Nonce := .replicate 12 1

def ciphertextA : ByteArray :=
  ⟨#[59, 188, 93, 169, 32, 86, 126, 236, 181, 68, 156, 184, 51, 49, 203, 132, 153]⟩

def ciphertextB : ByteArray :=
  ⟨#[211, 89, 68, 94, 222, 34, 203, 120, 186, 59, 119, 8, 185, 146, 158, 147, 0]⟩

/-- The same two in base64. -/
def secretA : StoredSecret := ⟨"AAAAAAAAAAAAAAAA", "O7xdqSBWfuy1RJy4MzHLhJk="⟩

def secretB : StoredSecret := ⟨"AQEBAQEBAQEBAQEB", "01lEXt4iy3i6O3cIuZKekwA="⟩

/-- The files that hold one of them or both. -/
def fileA : StoreFile := Finmap.insert "a" secretA ∅

def fileB : StoreFile := Finmap.insert "b" secretB ∅

def fileAB : StoreFile := Finmap.insert "b" secretB fileA

def jsonA : String :=
  "\x7b\n  \"a\": \x7b\n    \"nonce\": \"AAAAAAAAAAAAAAAA\",\n" ++
  "    \"ciphertext\": \"O7xdqSBWfuy1RJy4MzHLhJk=\"\n  \x7d\n\x7d"

def jsonB : String :=
  "\x7b\n  \"b\": \x7b\n    \"nonce\": \"AQEBAQEBAQEBAQEB\",\n" ++
  "    \"ciphertext\": \"01lEXt4iy3i6O3cIuZKekwA=\"\n  \x7d\n\x7d"

def jsonAB : String :=
  "\x7b\n  \"a\": \x7b\n    \"nonce\": \"AAAAAAAAAAAAAAAA\",\n" ++
  "    \"ciphertext\": \"O7xdqSBWfuy1RJy4MzHLhJk=\"\n  \x7d,\n" ++
  "  \"b\": \x7b\n    \"nonce\": \"AQEBAQEBAQEBAQEB\",\n" ++
  "    \"ciphertext\": \"01lEXt4iy3i6O3cIuZKekwA=\"\n  \x7d\n\x7d"

/-- The crates on these inputs. -/
def sampleCrates : StoreCrates where
  encrypt nonce plaintext :=
    if nonce = nonceA ∧ plaintext = "1".toUTF8 then some ciphertextA
    else if nonce = nonceB ∧ plaintext = "2".toUTF8 then some ciphertextB
    else none
  decrypt nonce ciphertext :=
    if nonce = nonceA ∧ ciphertext = ciphertextA then some "1".toUTF8
    else if nonce = nonceB ∧ ciphertext = ciphertextB then some "2".toUTF8
    else none
  base64Encode bytes :=
    if bytes = ⟨nonceA.toArray⟩ then secretA.nonce
    else if bytes = ⟨nonceB.toArray⟩ then secretB.nonce
    else if bytes = ciphertextA then secretA.ciphertext
    else if bytes = ciphertextB then secretB.ciphertext
    else ""
  base64Decode text :=
    if text = secretA.nonce then some ⟨nonceA.toArray⟩
    else if text = secretB.nonce then some ⟨nonceB.toArray⟩
    else if text = secretA.ciphertext then some ciphertextA
    else if text = secretB.ciphertext then some ciphertextB
    else none
  parse text :=
    if text = jsonA then .ok fileA
    else if text = jsonB then .ok fileB
    else if text = jsonAB then .ok fileAB
    else .error "expected value at line 1 column 1"
  render file :=
    if file = fileA then .ok jsonA
    else if file = fileB then .ok jsonB
    else if file = fileAB then .ok jsonAB
    else .error "not a sample"

/-- What they print they read back. -/
theorem sampleCrates_json (file : StoreFile) (json : String)
    (h : sampleCrates.render file = .ok json) :
    json ≠ "" ∧ sampleCrates.parse json = .ok file := by
  have hA : jsonA ≠ "" ∧ sampleCrates.parse jsonA = .ok fileA := by decide +kernel
  have hB : jsonB ≠ "" ∧ sampleCrates.parse jsonB = .ok fileB := by decide +kernel
  have hAB : jsonAB ≠ "" ∧ sampleCrates.parse jsonAB = .ok fileAB := by decide +kernel
  simp only [sampleCrates] at h
  split at h
  · rename_i hfile
    rw [hfile, ← Except.ok.inj h]
    exact hA
  · split at h
    · rename_i hfile
      rw [hfile, ← Except.ok.inj h]
      exact hB
    · split at h
      · rename_i hfile
        rw [hfile, ← Except.ok.inj h]
        exact hAB
      · cases h

/-- Two processes, each with one task. -/
def twoUpdates : Fin 2 → SecretUpdate
  | 0 => .set "a" "1"
  | 1 => .set "b" "2"

/-- No file yet, and nobody has a lock. -/
def noFile : SecretWorld (Fin 2) (Fin 2) := ⟨none, fun _ => none⟩

/-- The first one is done before the second one starts. -/
def oneAfterTheOther : List (Fin 2 × SecretChoice) :=
  List.flatten [turns 0 [{}, {}, { random := some nonceA }, {}, {}, {}],
    turns 1 [{}, {}, {}, { random := some nonceB }, {}, {}, {}]]

/-- Both updates are in the file. -/
theorem one_after_the_other :
    ∃ c, (secretMachine id).recorded.play oneAfterTheOther
        (secretPool sampleCrates noFile twoUpdates) = some c ∧
      Present sampleCrates (.set "a" "1") c.shared ∧
      Present sampleCrates (.set "b" "2") c.shared := by
  have hrun : ((secretMachine id).recorded.play oneAfterTheOther
      (secretPool sampleCrates noFile twoUpdates)).map
        (fun c => ((c.task 0).result, (c.task 1).result)) =
      some (some (.ok ()), some (.ok ())) := by
    decide +kernel
  have hrule : (secretMachine id).recorded.Meets (SecretRule id) oneAfterTheOther
      (secretPool sampleCrates noFile twoUpdates) := by
    decide +kernel
  obtain ⟨c, hc, hdone⟩ := Option.map_eq_some_iff.mp hrun
  obtain ⟨h0, h1⟩ := Prod.mk.inj hdone
  refine ⟨c, hc, ?_, ?_⟩
  · exact updates_are_kept (i := 0) sampleCrates_json (hrule.mono _ fun _ _ _ _ _ h => h.1)
      (hrule.mono _ fun _ _ _ _ _ h => h.2) hc (by decide) (Prog.result_eq_some.mp h0)
  · exact updates_are_kept (i := 1) sampleCrates_json (hrule.mono _ fun _ _ _ _ _ h => h.1)
      (hrule.mono _ fun _ _ _ _ _ h => h.2) hc (by decide) (Prog.result_eq_some.mp h1)

/-- The first one looks at the file before the second one starts, and writes after it. -/
def oneDuringTheOther : List (Fin 2 × SecretChoice) :=
  List.flatten [turns 0 [{}, {}, { random := some nonceA }],
    turns 1 [{}, {}, { random := some nonceB }, {}, {}, {}], turns 0 [{}, {}, {}]]

/-- Both return, and the update of the second one is gone. -/
theorem one_during_the_other :
    ∃ c, (secretMachine id).recorded.play oneDuringTheOther
        (secretPool sampleCrates noFile twoUpdates) = some c ∧
      (∀ i, c.task i = .ret (.ok ())) ∧ ¬ Present sampleCrates (twoUpdates 1) c.shared := by
  have hrun : ((secretMachine id).recorded.play oneDuringTheOther
      (secretPool sampleCrates noFile twoUpdates)).map
        (fun c => ((c.task 0).result, (c.task 1).result, c.shared.state.disk)) =
      some (some (.ok ()), some (.ok ()), some jsonA) := by
    decide +kernel
  obtain ⟨c, hc, hend⟩ := Option.map_eq_some_iff.mp hrun
  obtain ⟨h0, h⟩ := Prod.mk.inj hend
  obtain ⟨h1, hdisk⟩ := Prod.mk.inj h
  refine ⟨c, hc, fun i => ?_, ?_⟩
  · match i with
    | 0 => exact Prog.result_eq_some.mp h0
    | 1 => exact Prog.result_eq_some.mp h1
  · rintro ⟨file, hfile, nonce, stored, -, hlookup⟩
    have hcontent : sampleCrates.content (some jsonA) = .ok fileA := by decide +kernel
    have habsent : fileA.lookup "b" = none := by decide +kernel
    rw [hdisk, hcontent] at hfile
    cases hfile
    rw [habsent] at hlookup
    cases hlookup

end HeadlessMcp
