import SecretsManager.Projects.ProjectsRoutes

/-!
# The secret editor

The editor dialog of the project page, the draft that it leaves in the session storage when the session expires,
and the store that hands the draft over after a login. A list that is asked for arrives later, after anything else
may have happened; so does the answer to a save.
-/

namespace SecretsManager

open Js Interleaving

/-! ## The form -/

structure SecretFormRow where
  key : JsString
  value : JsString
  deriving DecidableEq

structure SecretFormState where
  name : JsString
  rows : List SecretFormRow
  deriving DecidableEq

def emptySecretForm : SecretFormState := ⟨[], [⟨[], []⟩]⟩

def secretToForm (secret : Secret) : SecretFormState :=
  ⟨secret.name, secret.data.entries.map fun p => ⟨p.1, p.2⟩⟩

def formRowText (row : SecretFormRow) : JsString :=
  js "\x7b\"key\":" ++ quote row.key ++ js ",\"value\":" ++ quote row.value ++ js "\x7d"

/-- `JSON.stringify({ name: form.name, rows: form.rows })` -/
def formSnapshot (form : SecretFormState) : JsString :=
  js "\x7b\"name\":" ++ quote form.name ++ js ",\"rows\":[" ++
    (js ",").intercalate (form.rows.map formRowText) ++ js "]\x7d"

def isFormDirty (form : SecretFormState) (baseline : JsString) : Bool := formSnapshot form ≠ baseline

def persistedFormBaseline : Option Secret → JsString
  | some secret => formSnapshot (secretToForm secret)
  | none => formSnapshot emptySecretForm

/-- One row, after the keys that were seen. -/
def addFormRow (built : List JsString × SecretData) (row : SecretFormRow) :
    Except JsString (List JsString × SecretData) :=
  let key := trim row.key
  if key.length = 0 then .ok built
  else if built.1.contains key then .error (js "Duplicate key '" ++ key ++ js "': each key must appear only once")
  else .ok (key :: built.1, built.2.set key row.value)

/-- The data of the rows, or the error that is shown. -/
def buildSecretData (rows : List SecretFormRow) : Except JsString SecretData :=
  (rows.foldlM addFormRow ([], .empty)).map Prod.snd

/-! ## Drafts -/

/-- The draft in the session storage; `savedAt` in milliseconds. -/
structure SecretDraft where
  projectId : JsString
  secretId : Option JsString
  name : JsString
  rows : List SecretFormRow
  savedAt : Int
  userId : JsString

def secretDraftTtlMs : Int := 15 * 60 * 1000

/-- What the edits of a dialog rest on: the secret that it was opened with, and the persisted secret of the last
conflict notice. It is a record only, that no step reads. -/
structure Basis where
  started : Option Secret
  noticed : Option Secret

/-- A draft with the secret that was edited and what the edits rested on. The storage holds the draft only. -/
structure Captured extends SecretDraft where
  editing : Option Secret
  basis : Basis

/-- The session storage holds nothing but what was captured. -/
def loadSecretDraft (stored : Option Captured) (now : Int) : Option Captured :=
  stored.filter fun draft => draft.userId ≠ [] ∧ ¬ secretDraftTtlMs < now - draft.savedAt

def takeSecretDraftForUser (stored : Option Captured) (userId : JsString) (now : Int) : Option Captured :=
  (loadSecretDraft stored now).filter fun draft => draft.userId = userId

/-! ## The page -/

/-- What follows a list of secrets that was asked for. -/
inductive AfterLoad where
  | mounted
  | reloaded
  | saved
  | conflict (secretId : JsString)
  | missing

/-- A list that was asked for, with its answer once the server has read it. -/
structure SecretsLoad where
  after : AfterLoad
  answer : Option (List Secret)

/-- The project page. `isOpen` is that of the editor dialog, `request` the save that waits for its answer. -/
structure ProjectPage where
  projectId : JsString
  secrets : List Secret
  loads : List SecretsLoad
  isOpen : Bool
  editingSecret : Option Secret
  savingSecret : Bool
  request : Option Nat
  secretForm : SecretFormState
  secretError : JsString
  savedSnapshot : JsString
  pendingDraft : Option Captured
  basis : Basis

namespace ProjectPage

def mount (projectId : JsString) : ProjectPage where
  projectId := projectId
  secrets := []
  loads := [⟨.mounted, none⟩]
  isOpen := false
  editingSecret := none
  savingSecret := false
  request := none
  secretForm := emptySecretForm
  secretError := []
  savedSnapshot := []
  pendingDraft := none
  basis := ⟨none, none⟩

/-- `loadSecrets()`, with what follows it. -/
def load (page : ProjectPage) (after : AfterLoad) : ProjectPage := { page with loads := page.loads ++ [⟨after, none⟩] }

def openCreateSecret (page : ProjectPage) : ProjectPage :=
  { page with
    isOpen := true
    editingSecret := none
    secretForm := emptySecretForm
    secretError := []
    savedSnapshot := formSnapshot emptySecretForm
    basis := ⟨none, none⟩ }

def openEditSecret (page : ProjectPage) (secret : Secret) : ProjectPage :=
  { page with
    isOpen := true
    editingSecret := some secret
    secretForm := secretToForm secret
    secretError := []
    savedSnapshot := formSnapshot (secretToForm secret)
    basis := ⟨some secret, none⟩ }

/-- `closeSecretModal`, and the handler of the `close` event. -/
def closeSecretModal (page : ProjectPage) : ProjectPage :=
  { page with
    isOpen := false
    editingSecret := none
    secretForm := emptySecretForm
    savedSnapshot := formSnapshot emptySecretForm }

/-- The draft of unsaved edits, when there is an open dialog with some. -/
def captureUnsavedEdits (page : ProjectPage) (userId : Option JsString) (now : Int) : Option Captured :=
  match userId with
  | none | some [] => none
  | some userId =>
      if page.isOpen ∧ isFormDirty page.secretForm page.savedSnapshot then
        some
          { projectId := page.projectId
            secretId := page.editingSecret.map Secret.id
            name := (page.editingSecret.map fun secret => secret.name).getD page.secretForm.name
            rows := page.secretForm.rows
            savedAt := now
            userId := userId
            editing := page.editingSecret
            basis := page.basis }
      else none

/-- The secret of the list that a draft is restored over. -/
def draftSecret (page : ProjectPage) (draft : Captured) : Option Secret :=
  match draft.secretId with
  | none | some [] => none
  | some secretId => page.secrets.find? fun item => item.id = secretId

/-- The list has the secret with the id of the draft, or it is restored as a new secret. -/
def restoreDraft (page : ProjectPage) (draft : Captured) : ProjectPage :=
  { page with
    pendingDraft := none
    isOpen := true
    editingSecret := page.draftSecret draft
    secretForm := ⟨((page.draftSecret draft).map fun secret => secret.name).getD draft.name, draft.rows⟩
    secretError := []
    savedSnapshot := persistedFormBaseline (page.draftSecret draft)
    basis := draft.basis }

def deletedNotice : JsString :=
  js "This secret was deleted by another user. Your changes are kept: save them to create a new secret."

def modifiedNotice : JsString :=
  js "This secret was modified by another user. Your changes are kept: review them and save again."

def missingNotice : JsString :=
  js "This secret no longer exists. Your changes are kept: save them to create a new secret."

/-- `reloadAfterSaveConflict`, once the list is there. -/
def afterSaveConflict (page : ProjectPage) (secretId : JsString) : ProjectPage :=
  match page.secrets.find? fun item => item.id = secretId with
  | none =>
      { page with editingSecret := none, savedSnapshot := persistedFormBaseline none, secretError := deletedNotice }
  | some latest =>
      { page with
        editingSecret := some latest
        secretForm := { page.secretForm with name := latest.name }
        savedSnapshot := persistedFormBaseline (some latest)
        secretError := modifiedNotice
        basis := { page.basis with noticed := some latest } }

/-- What follows a list, whether it has arrived or not; `pendingDraft` is that of the store. -/
def afterLoad (page : ProjectPage) (pendingDraft : Option Captured) : AfterLoad → ProjectPage
  | .mounted =>
      match pendingDraft with
      | some draft => if draft.projectId = page.projectId then { page with pendingDraft := some draft } else page
      | none => page
  | .reloaded => page
  | .saved => { page with savingSecret := false }
  | .conflict secretId => { page.afterSaveConflict secretId with savingSecret := false }
  | .missing =>
      { page with
        savingSecret := false
        editingSecret := none
        savedSnapshot := persistedFormBaseline none
        secretError := missingNotice }

/-- The request that saves the data. -/
def saveRequest (page : ProjectPage) (data : SecretData) : Operation :=
  match page.editingSecret with
  | some secret =>
      .updateSecret page.projectId secret.id
        { name := none
          data := some data.toJson
          version := some (.num ⟨js (toString secret.version), some secret.version⟩)
          key := none
          value := none }
  | none =>
      .createSecret page.projectId
        { name := some (.str page.secretForm.name)
          data := some data.toJson
          version := none
          key := none
          value := none }

/-- The request that a click on Save sends, when the button is there and the rows have no duplicate key. -/
def sends (page : ProjectPage) : Option Operation :=
  if page.isOpen ∧ page.savingSecret = false then (buildSecretData page.secretForm.rows).toOption.map page.saveRequest
  else none

/-- `saveSecret` up to its request. -/
def saveSecret (page : ProjectPage) (request : Nat) : ProjectPage :=
  match buildSecretData page.secretForm.rows with
  | .error message => { page with secretError := message }
  | .ok _ => { page with savingSecret := true, secretError := [], request := some request }

end ProjectPage

/-! ## Answers -/

def apiErrorCode (response : Response) : JsString :=
  match response.body with
  | .error _ (some code) => code
  | _ => []

def isSecretVersionConflict (response : Response) : Bool := apiErrorCode response = js "SECRET_VERSION_CONFLICT"

def isSecretNameConflict (response : Response) : Bool := apiErrorCode response = js "SECRET_NAME_CONFLICT"

def extractApiErrorMessage (response : Response) (fallback : JsString) : JsString :=
  match response.body with
  | .error message _ => message
  | _ => fallback

namespace ProjectPage

/-- `saveSecret` from its answer on, with the secret that the dialog has by then. -/
def saveAnswered (page : ProjectPage) (response : Response) : ProjectPage :=
  let page := { page with request := none }
  if 200 ≤ response.status ∧ response.status < 300 then page.closeSecretModal.load .saved
  else
    match page.editingSecret with
    | some secret =>
        if isSecretVersionConflict response then page.load (.conflict secret.id)
        else if response.status = 404 then page.load .missing
        else
          { page with
            savingSecret := false
            secretError := extractApiErrorMessage response (js "Unable to save the secret") }
    | none =>
        { page with
          savingSecret := false
          secretError :=
            if isSecretNameConflict response then
              js "A secret with this name already exists: choose another name."
            else extractApiErrorMessage response (js "Unable to save the secret") }

/-- A save without an answer: a failed connection, or a refused session. -/
def saveFailed (page : ProjectPage) : ProjectPage :=
  { page with request := none, savingSecret := false, secretError := js "Unable to save the secret" }

end ProjectPage

/-! ## The session -/

/-- A full update that was sent, for the record: the secret that it replaces and what its edits rested on. -/
structure SentSave where
  request : Nat
  projectId : JsString
  secret : Secret
  basis : Basis

/-- A tab of the browser: the store with the user and the draft that is offered, the session storage and the
page, if it is that of a project. -/
structure Session where
  userId : Option JsString
  pendingDraft : Option Captured
  stored : Option Captured
  page : Option ProjectPage
  saves : List SentSave

inductive SessionEvent where
  | login (userId : JsString) (now : Int)
  | logout
  | openPage (projectId userId : JsString)
  | leavePage
  | unload
  | reload
  | listed (load : Nat) (rows : List Secret)
  | loaded (load : Nat)
  | loadFailed (load : Nat)
  | openCreate
  | openEdit (secret : Secret)
  | edit (form : SecretFormState)
  | close
  | save (request : Nat)
  | answered (response : Response)
  | unanswered
  | savedLate
  | unauthorized (now : Int) (stored : Bool)
  | restoreDraft
  | discardDraft
  | dismissDraft

namespace Session

def start : Session := ⟨none, none, none, none, []⟩

def onPage (s : Session) (f : ProjectPage → Option ProjectPage) : Option Session :=
  (s.page.bind f).map fun page => { s with page := some page }

/-- The record of a save that was sent from the page. -/
def record (s : Session) (page : ProjectPage) (request : Nat) : List SentSave :=
  match page.sends, page.editingSecret with
  | some _, some secret => ⟨request, page.projectId, secret, page.basis⟩ :: s.saves
  | _, _ => s.saves

/-- `loadSecrets` ends, with the list that has arrived or without. -/
def endLoad (s : Session) (i : Nat) (rows : ProjectPage → SecretsLoad → Option (List Secret)) : Option Session :=
  s.onPage fun page => page.loads[i]?.bind fun load => (rows page load).map fun secrets =>
    { page with secrets := secrets, loads := page.loads.eraseIdx i }.afterLoad s.pendingDraft load.after

def step (s : Session) : SessionEvent → Option Session
  | .login userId now =>
      -- the user of the answer has an `id`, not the `userId` that the capture looks for
      some { s with userId := none, pendingDraft := takeSecretDraftForUser s.stored userId now, stored := none }
  | .logout => some { s with userId := none, pendingDraft := none, stored := none }
  | .openPage projectId userId => some { s with userId := some userId, page := some (.mount projectId) }
  | .leavePage => some { s with page := none }
  | .unload => some { s with userId := none, pendingDraft := none, page := none }
  | .reload => s.onPage fun page => some (page.load .reloaded)
  | .listed i rows => s.onPage fun page => page.loads[i]?.map fun load =>
      { page with loads := page.loads.set i ⟨load.after, some rows⟩ }
  | .loaded i => s.endLoad i fun _ load => load.answer
  | .loadFailed i => s.endLoad i fun page _ => some page.secrets
  | .openCreate => s.onPage fun page => some page.openCreateSecret
  | .openEdit secret => s.onPage fun page => if secret ∈ page.secrets then some (page.openEditSecret secret) else none
  | .edit form => s.onPage fun page => if page.isOpen then some { page with secretForm := form } else none
  | .close => s.onPage fun page => some page.closeSecretModal
  | .save request =>
      s.page.bind fun page =>
        if page.isOpen ∧ page.savingSecret = false then
          some { s with page := some (page.saveSecret request), saves := s.record page request }
        else none
  | .answered response =>
      s.page.bind fun page =>
        if page.request.isSome then
          some
            { s with
              page := some (page.saveAnswered response)
              pendingDraft := if 200 ≤ response.status ∧ response.status < 300 then none else s.pendingDraft }
        else none
  | .unanswered => s.onPage fun page => if page.request.isSome then some page.saveFailed else none
  | .savedLate =>
      -- the answer to a save of a page that was left
      some { s with pendingDraft := none }
  | .unauthorized now stored =>
      -- the redirect that follows is an `unload`, unless the user stays on the page
      s.page.map fun page =>
        match page.captureUnsavedEdits s.userId now with
        | some draft => if stored then { s with stored := some draft } else s
        | none => s
  | .restoreDraft =>
      s.page.bind fun page => page.pendingDraft.map fun draft =>
        { s with page := some (page.restoreDraft draft), pendingDraft := none }
  | .discardDraft => s.page.map fun page =>
      { s with page := some { page with pendingDraft := none }, pendingDraft := none }
  | .dismissDraft => s.onPage fun page => some { page with pendingDraft := none }

/-- The request that a save sends in this state. -/
def sends (s : Session) : Option Operation := s.page.bind ProjectPage.sends

end Session

end SecretsManager
