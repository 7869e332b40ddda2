/-
The outcome of a procedure, taken apart: the answer it gives and the
session it leaves. A procedure may do part of its work before it is
refused, so the session it leaves matters for refused calls too.

Most of what a procedure does not do is said by commuting. A procedure
commutes with a change of the session if the change can be made before the
call or after it: the procedure neither looks at what is changed nor writes
it. To commute passes through sequencing (`Commutes.bind`), so it is proved
along the code of a procedure, one line a step. Blindness is the case of an
edit of the workspace.
-/
import MixtureAttention.Layer.Procedures
import MixtureAttention.Proofs.Registry.Stores

namespace MixtureAttention

variable {α β γ : Type}

namespace Procedure

/-- The session that a call leaves, refused or not. -/
def final (p : Procedure α β) (st : Session α) : Session α :=
  match p st with
  | .ok _ st' => st'
  | .error _ st' => st'

/-- What a call answers. -/
def answer (p : Procedure α β) (st : Session α) : Except LayerError β :=
  match p st with
  | .ok x _ => .ok x
  | .error e _ => .error e

/-- The session that an answered call leaves. -/
theorem final_of_ok {p : Procedure α β} {st st' : Session α} {x : β}
    (h : p st = .ok x st') : final p st = st' := by
  rw [final, h]

/-- The session that a refused call leaves. -/
theorem final_of_error {p : Procedure α β} {st st' : Session α}
    {e : LayerError} (h : p st = .error e st') : final p st = st' := by
  rw [final, h]

/-- The answer of a call that succeeds. -/
theorem answer_of_ok {p : Procedure α β} {st st' : Session α} {x : β}
    (h : p st = .ok x st') : answer p st = .ok x := by
  rw [answer, h]

/-- The answer of a call that is refused. -/
theorem answer_of_error {p : Procedure α β} {st st' : Session α}
    {e : LayerError} (h : p st = .error e st') : answer p st = .error e := by
  rw [answer, h]

/-- A call that answers is not refused. -/
theorem ok_of_answer {p : Procedure α Unit} {st : Session α}
    (h : (answer p st).isOk = true) : ∃ st', p st = .ok () st' := by
  unfold answer at h
  cases hrun : p st with
  | ok _ st' => exact ⟨st', rfl⟩
  | error e st' =>
      rw [hrun] at h
      cases h

/-- Two calls with one outcome leave the same session. -/
theorem final_congr {p : Procedure α β} {q : Procedure α β}
    {st st' : Session α} (h : p st = q st') : final p st = final q st' := by
  rw [final, final, h]

/-- Calls with one outcome have one answer. -/
theorem answer_congr {p : Procedure α β} {q : Procedure α β}
    {st st' : Session α} (h : p st = q st') : answer p st = answer q st' := by
  rw [answer, answer, h]

-- ============================================================ sequencing

/-- After a success the rest runs on the session that was left. -/
theorem bind_of_ok {p : Procedure α β} {f : β → Procedure α γ}
    {st st' : Session α} {x : β} (h : p st = .ok x st') :
    (p >>= f) st = f x st' := by
  show EStateM.bind p f st = _
  rw [EStateM.bind, h]

/-- After a refusal nothing runs. -/
theorem bind_of_error {p : Procedure α β} {f : β → Procedure α γ}
    {st st' : Session α} {e : LayerError} (h : p st = .error e st') :
    (p >>= f) st = .error e st' := by
  show EStateM.bind p f st = _
  rw [EStateM.bind, h]

/-- A step that answers is followed by the next, on the session it left. -/
theorem bind_of_answer {p : Procedure α β} {f : β → Procedure α γ}
    {st : Session α} {x : β} (h : answer p st = .ok x) :
    (p >>= f) st = f x (final p st) := by
  unfold answer at h
  unfold final
  cases hp : p st with
  | ok y st' =>
      rw [hp] at h
      cases h
      exact bind_of_ok hp
  | error e st' =>
      rw [hp] at h
      cases h

/-- A step that is refused is the last. -/
theorem bind_of_refused {p : Procedure α β} {f : β → Procedure α γ}
    {st : Session α} {e : LayerError} (h : answer p st = .error e) :
    (p >>= f) st = .error e (final p st) := by
  unfold answer at h
  unfold final
  cases hp : p st with
  | ok y st' =>
      rw [hp] at h
      cases h
  | error e' st' =>
      rw [hp] at h
      cases h
      exact bind_of_error hp

/-- Reading the session passes it on. -/
theorem get_bind (f : Session α → Procedure α β) (st : Session α) :
    (get >>= f) st = f st st := rfl

/-- A read leaves the session as it is. -/
theorem read_of_ok {f : Session α → Except LayerError β} {st : Session α}
    {x : β} (h : f st = .ok x) : read f st = .ok x st := by
  rw [read, h]

/-- A read that is refused leaves the session as it is. -/
theorem read_of_error {f : Session α → Except LayerError β}
    {st : Session α} {e : LayerError} (h : f st = .error e) :
    read f st = .error e st := by
  rw [read, h]

/-- A command on the workspace leaves the layer as it is. -/
theorem onWorkspace_of_ok {c : Workspace.Command α β} {st : Session α}
    {x : β} {w : Workspace α} (h : c st.workspace = .ok x w) :
    onWorkspace c st = .ok x { st with workspace := w } := by
  rw [onWorkspace, h]

/-- A command that is refused leaves the layer as it is. -/
theorem onWorkspace_of_error {c : Workspace.Command α β} {st : Session α}
    {e : LayerError} {w : Workspace α} (h : c st.workspace = .error e w) :
    onWorkspace c st = .error e { st with workspace := w } := by
  rw [onWorkspace, h]

/-- A command on a workspace, as the answer it gives and the edit it
makes. -/
theorem onWorkspace_of_answered {c : Workspace.Command α β}
    {st : Session α} {r : Except LayerError β} {w : Workspace α}
    (h : c st.workspace = Workspace.answered r w) :
    final (onWorkspace c) st = { st with workspace := w }
      ∧ answer (onWorkspace c) st = r := by
  unfold final answer onWorkspace
  rw [h]
  cases r <;> exact ⟨rfl, rfl⟩

/-- A command on the workspace leaves the layer alone. -/
theorem layer_onWorkspace (c : Workspace.Command α β) (st : Session α) :
    (final (onWorkspace c) st).layer = st.layer := by
  unfold final onWorkspace
  cases c st.workspace <;> rfl

/-- Commands in sequence may be run one by one. -/
theorem onWorkspace_bind (c : Workspace.Command α β)
    (f : β → Workspace.Command α γ) :
    onWorkspace (c >>= f) = onWorkspace c >>= fun x => onWorkspace (f x) := by
  funext st
  show onWorkspace (EStateM.bind c f) st = EStateM.bind (onWorkspace c) _ st
  unfold onWorkspace EStateM.bind
  dsimp only
  cases c st.workspace <;> rfl

variable {store : β → Workspace.Command α Unit}

/-- Storing a list stores its first entry and then the others. -/
theorem onWorkspace_storeAll_cons (b c : β) (bs : List β) :
    onWorkspace (Workspace.storeAll store (b :: c :: bs))
      = onWorkspace (store b) >>= fun _ =>
          onWorkspace (Workspace.storeAll store (c :: bs)) := by
  rw [Workspace.storeAll, onWorkspace_bind]

/-- The last of them needs nothing after it. -/
theorem onWorkspace_storeAll_single (b : β) :
    onWorkspace (Workspace.storeAll store [b]) = onWorkspace (store b) := by
  rw [Workspace.storeAll, Workspace.storeAll, onWorkspace_bind]
  exact bind_pure _

/-- Remembering changes the memo alone. -/
theorem remember_eq (memo : Memo α) (st : Session α) :
    remember memo st
      = .ok () { st with layer := { st.layer with memo } } := rfl

end Procedure

-- ============================================================= commuting

/-- An outcome with the session that is left changed. -/
def mapOutcome (f : Session α → Session α) :
    EStateM.Result LayerError (Session α) β →
      EStateM.Result LayerError (Session α) β
  | .ok x st => .ok x (f st)
  | .error e st => .error e (f st)

namespace Procedure

/-- The change can be made before the call or after it. -/
def Commutes (f : Session α → Session α) (p : Procedure α β) : Prop :=
  ∀ st, p (f st) = mapOutcome f (p st)

variable {f : Session α → Session α}

/-- A change of the session may be made before the call or after it. -/
theorem Commutes.final {p : Procedure α β} (h : Commutes f p)
    (st : Session α) : final p (f st) = f (final p st) := by
  unfold Procedure.final
  rw [h st]
  cases p st <;> rfl

/-- The call does not notice it. -/
theorem Commutes.answer {p : Procedure α β} (h : Commutes f p)
    (st : Session α) : answer p (f st) = answer p st := by
  unfold Procedure.answer
  rw [h st]
  cases p st <;> rfl

/-- Sequencing keeps what each step does not notice. -/
theorem Commutes.bind {p : Procedure α β} {q : β → Procedure α γ}
    (hp : Commutes f p) (hq : ∀ x, Commutes f (q x)) :
    Commutes f (p >>= q) := by
  intro st
  show EStateM.bind p q (f st) = mapOutcome f (EStateM.bind p q st)
  unfold EStateM.bind
  rw [hp st]
  cases p st with
  | ok x st' => exact hq x st'
  | error e st' => rfl

/-- Returning a value notices no change. -/
theorem Commutes.pure (x : β) : Commutes f (pure x : Procedure α β) :=
  fun _ => rfl

/-- A refusal notices no change. -/
theorem Commutes.throw (e : LayerError) :
    Commutes f (throw e : Procedure α β) :=
  fun _ => rfl

/-- Reading commutes with a change of what the reader does not look at. -/
theorem Commutes.read {g : Session α → Except LayerError β}
    (h : ∀ st, g (f st) = g st) : Commutes f (read g) := by
  intro st
  unfold Procedure.read
  rw [h st]
  cases g st <;> rfl

/-- A modification notices no change that it can be swapped with. -/
theorem Commutes.modify {m : Session α → Session α}
    (h : ∀ st, m (f st) = f (m st)) : Commutes f (modify m) := by
  intro st
  show EStateM.Result.ok _ (m (f st)) = .ok _ (f (m st))
  rw [h]

/-- A step that goes on in the same way from the changed session. -/
theorem Commutes.get {q : Session α → Procedure α β}
    (hq : ∀ st, q (f st) = q st) (hcomm : ∀ st, Commutes f (q st)) :
    Commutes f (MonadState.get >>= q) := by
  intro st
  show q (f st) (f st) = mapOutcome f (q st st)
  rw [hq]
  exact hcomm st st

/-- A command on the workspace commutes with a change of the layer. -/
theorem Commutes.onWorkspace {g : Layer α → Layer α}
    (c : Workspace.Command α β) :
    Commutes (fun st => { st with layer := g st.layer }) (onWorkspace c) := by
  intro st
  unfold Procedure.onWorkspace
  dsimp only
  cases c st.workspace <;> rfl

end Procedure

-- ============================================================= blindness

/-- The session with its workspace edited. -/
def Session.edit (f : Workspace α → Workspace α) (st : Session α) :
    Session α :=
  { st with workspace := f st.workspace }

namespace Procedure

/-- The edit can be made before the call or after it. -/
def Blind (f : Workspace α → Workspace α) (p : Procedure α β) : Prop :=
  Commutes (Session.edit f) p

variable {f : Workspace α → Workspace α}

/-- A command with one outcome on a workspace and on the edited one. -/
theorem onWorkspace_congr {c : Workspace.Command α β} {st : Session α}
    (h : c (f st.workspace) = c st.workspace) :
    onWorkspace c (st.edit f) = onWorkspace c st := by
  unfold onWorkspace Session.edit
  rw [h]

/-- A store is blind to what neither its check nor its write meets. -/
theorem Blind.store {c : Workspace.Command α Unit}
    {check : Workspace α → Except LayerError Unit}
    {put : Workspace α → Workspace α}
    (hform : ∀ w, c w = Workspace.stored (check w) w (put w))
    (hcheck : ∀ w, check (f w) = check w)
    (hput : ∀ w, put (f w) = f (put w)) : Blind f (onWorkspace c) := by
  intro st
  unfold onWorkspace
  simp only [hform, Session.edit, hcheck, hput]
  cases check st.workspace <;> rfl

-- ======================================================== caller's stores

/-- An input that fits what is declared is stored. -/
theorem final_setInput {st : Session α} {i : Nat} {d : Dims} {t : Tensor α}
    (hd : st.workspace.inputDims[i]? = some d)
    (ht : t.shape.tail = d.toShape.tail) :
    final (onWorkspace (Workspace.setInput ⟨i⟩ t)) st
      = st.edit fun w => { w with inputs := w.inputs.set i t } := by
  have hcheck : (do
      let d ← Workspace.lookup .input st.workspace.inputDims i
      Workspace.checkBeyondBatch d t : Except LayerError Unit) = .ok () :=
    Workspace.lookup_bind_eq_ok.2 ⟨d, hd, if_pos ht.symm⟩
  have hstore := Workspace.setInput_eq ⟨i⟩ t st.workspace
  rw [hcheck] at hstore
  exact final_of_ok (onWorkspace_of_ok hstore)

/-- A derivative with respect to an output that fits it beyond the batch is
stored. -/
theorem final_setIncoming {st : Session α} {i : Nat} {d : Dims} {t : Tensor α}
    (hd : st.workspace.outputDims[i]? = some d)
    (ht : t.shape.tail = d.toShape.tail) :
    final (onWorkspace (Workspace.setIncoming i t)) st
      = st.edit fun w => { w with incoming := w.incoming.set i t } := by
  have hcheck : (do
      let d ← Workspace.lookup .output st.workspace.outputDims i
      Workspace.checkBeyondBatch d t : Except LayerError Unit) = .ok () :=
    Workspace.lookup_bind_eq_ok.2 ⟨d, hd, if_pos ht.symm⟩
  have hstore := Workspace.setIncoming_eq i t st.workspace
  rw [hcheck] at hstore
  exact final_of_ok (onWorkspace_of_ok hstore)

end Procedure
end MixtureAttention
