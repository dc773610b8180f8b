import SecretsManager.Library.Lockstep
import SecretsManager.Runs
import SecretsManager.SpelledRequests

/-!
# The server on columns of ids

`server` takes every id as it is stored. Here its programs run on the columns of a database. When every request spells
its ids, the runs are those of `server`, step by step: the same worlds, and programs that differ in the spelling of the
id that a project route has looked up. What `server` keeps, the columns keep.
-/

namespace SecretsManager

open Js Interleaving

/-! ## The two servers -/

section Servers
variable {W : Type}

/-- The programs of the server on any store. -/
def storeServer (P : Platform) (timeouts : ResticTimeouts) (exec : Nat → W → (c : Cmd) → c.Answer → W → Prop)
    (environment : W → W → Prop) (admits : Operation → Prop) : System W Cmd Cmd.Answer Failure Response Operation where
  admits := admits
  body := serve P timeouts
  exec := fun t _ _ => exec t
  environment := environment

/-- The server on a database with these columns of ids. -/
def serverOn {R : Type} (ids : IdColumn) (P : Platform) (timeouts : ResticTimeouts) (restic : Restic R)
    (admits : Operation → Prop) : System (World R) Cmd Cmd.Answer Failure Response Operation :=
  storeServer P timeouts (fun t => ColumnExec ids (Exec restic t)) (Outside restic) admits

/-- What the two servers need of a store: its answers come from its tables, which change by transactions only, and any
statement can fail. -/
structure Backs (tables : W → Tables) (exec : Nat → W → (c : Cmd) → c.Answer → W → Prop) (environment : W → W → Prop) :
    Prop where
  fails : ∀ {t w c a}, c.Fails a → exec t w c a w
  project : ∀ {t w id p w'}, exec t w (.projectsGet id) (.ok (some p)) w' → p ∈ (tables w).projects
  projects : ∀ {t w l w'}, exec t w .projectsList (.ok l) w' → ∀ p ∈ l, p ∈ (tables w).projects
  secrets : ∀ {t w id l w'}, exec t w (.secretsList id) (.ok l) w' → ∀ s ∈ l, s ∈ (tables w).secrets
  run : ∀ {t w c a w'}, exec t w c a w' →
    tables w' = tables w ∨ ∃ tx, c = .transact tx ∧ tables w' = (tx.run (tables w)).1
  environment : ∀ {w w'}, environment w w' → tables w' = tables w

end Servers

/-! ## One step -/

section Step
variable {W : Type} {ids : IdColumn} {tables : W → Tables} {exec : Nat → W → (c : Cmd) → c.Answer → W → Prop}
  {environment : W → W → Prop} {t : Nat} {w w' : W} {c : Cmd} {a : c.Answer} {id : JsString}

/-- The stored spelling is what a spelled id is already. -/
theorem exec_of_spelledExec (hc : ∀ id ∈ c.ids, ids.Spelled id) (h : SpelledExec ids (exec t) w c a w') :
    exec t w c a w' := by
  have hids : ∀ id ∈ c.ids, ids.spell id = id := fun id hid => IdColumn.spell_eq_self_iff.mpr (hc id hid)
  cases c with
  | projectsGet id | secretsList id | secretsGet id =>
      have hid := hids id (List.mem_singleton.mpr rfl)
      rw [SpelledExec] at h
      rwa [hid] at h
  | transact tx =>
      rw [SpelledExec] at h
      rwa [Transaction.withIds_eq_self hids] at h
  | uuid => exact h.2
  | _ => exact h

theorem exec_of_columnExec (B : Backs tables exec environment) (hc : ∀ id ∈ c.ids, ids.Spelled id)
    (h : ColumnExec ids (exec t) w c a w') : exec t w c a w' := by
  rcases h with ⟨-, hfails, rfl⟩ | ⟨-, h⟩
  · exact B.fails hfails
  · exact exec_of_spelledExec hc h

/-- A lookup finds what the stored spelling finds. -/
theorem lookup_of_columnExec (B : Backs tables exec environment) {a : Except Failure (Option Project)}
    (h : ColumnExec ids (exec t) w (.projectsGet id) a w') : exec t w (.projectsGet (ids.spell id)) a w' := by
  rcases h with ⟨-, hfails, rfl⟩ | ⟨-, h⟩
  · exact B.fails hfails
  · exact h

/-- The ids of an answer are spelled as they are stored. -/
theorem answers_of_columnExec (B : Backs tables exec environment) (hstored : (tables w).Stored ids)
    (h : ColumnExec ids (exec t) w c a w') : ids.Answers c a := by
  rcases h with ⟨-, hfails, -⟩ | ⟨-, h⟩
  · cases c with
    | projectsGet id | secretsList id =>
        obtain ⟨m, rfl⟩ := hfails
        trivial
    | projectsList | uuid => exact hfails.elim
    | _ => trivial
  · cases c with
    | projectsGet id =>
        match a, h with
        | .error e, _ | .ok none, _ => trivial
        | .ok (some p), h => exact hstored.projects p (B.project h)
    | projectsList =>
        match a, h with
        | .error e, _ => trivial
        | .ok l, h => exact fun p hp => hstored.projects p (B.projects h p hp)
    | secretsList projectId =>
        match a, h with
        | .error e, _ => trivial
        | .ok l, h => exact fun s hs => hstored.secrets s (B.secrets h s hs)
    | uuid => exact h.1
    | _ => trivial

/-- The rows keep their ids stored. -/
theorem stored_of_columnExec (B : Backs tables exec environment)
    (hc : (∀ id ∈ c.ids, ids.Spelled id) ∨ ∃ id, c = .projectsGet id) (hstored : (tables w).Stored ids) (h : ColumnExec ids (exec t) w c a w') : (tables w').Stored ids := by
  rcases h with ⟨-, -, rfl⟩ | ⟨hreadable, h⟩
  · exact hstored
  · rcases hc with hc | ⟨id, rfl⟩
    · rcases B.run (exec_of_spelledExec hc h) with hsame | ⟨tx, rfl, hrun⟩
      · rwa [hsame]
      · rw [hrun]
        refine hstored.run fun id hid => (hc id hid).resolve_left fun hnone => ?_
        have hread := hreadable id hid
        rw [hnone] at hread
        cases hread
    · rcases B.run (show exec t w (.projectsGet (ids.spell id)) a w' from h) with hsame | ⟨tx, htx, -⟩
      · rwa [hsame]
      · cases htx

end Step

/-! ## Runs -/

section Runs
variable {W : Type} {ids : IdColumn} {tables : W → Tables} {exec : Nat → W → (c : Cmd) → c.Answer → W → Prop}
  {environment : W → W → Prop} {P : Platform} {timeouts : ResticTimeouts} {admits admits' : Operation → Prop}

/-- A lookup with the stored spelling of its id, and any other event as it is. -/
def spellEvent (ids : IdColumn) : Event W Cmd Cmd.Answer → Event W Cmd Cmd.Answer
  | ⟨w, .projectsGet id, a, w'⟩ => ⟨w, .projectsGet (ids.spell id), a, w'⟩
  | e => e

theorem spellEvent_of_spelled {e : Event W Cmd Cmd.Answer} (h : ∀ id ∈ e.cmd.ids, ids.Spelled id) :
    spellEvent ids e = e := by
  obtain ⟨w, c, a, w'⟩ := e
  cases c with
  | projectsGet id =>
      rw [spellEvent, IdColumn.spell_eq_self_iff.mpr (h id (List.mem_singleton.mpr rfl))]
  | _ => rfl

@[simp] theorem before_spellEvent (e : Event W Cmd Cmd.Answer) : (spellEvent ids e).before = e.before := by
  obtain ⟨w, c, a, w'⟩ := e
  cases c <;> rfl

@[simp] theorem after_spellEvent (e : Event W Cmd Cmd.Answer) : (spellEvent ids e).after = e.after := by
  obtain ⟨w, c, a, w'⟩ := e
  cases c <;> rfl

/-- The past of an operation with the id of its first lookup as it is stored. -/
abbrev spellTrace (ids : IdColumn) (trace : List (Event W Cmd Cmd.Answer)) : List (Event W Cmd Cmd.Answer) :=
  trace.modifyHead (spellEvent ids)

/-- The same operation with the stored spelling of its project id. -/
structure Respells (ids : IdColumn) (th th' : Thread W Cmd Cmd.Answer Failure Response Operation) : Prop where
  req : th'.req = th.req.respell ids
  trace : th'.trace = spellTrace ids th.trace
  prog : (th'.prog = th.prog ∧ Spells ids (fun _ => True) th.prog) ∨ (th.trace = [] ∧ Respelled ids th.prog th'.prog)

/-- **The server on the columns and the server run in lockstep**, when every request spells its ids. -/
theorem lockstep_respells (B : Backs tables exec environment) (hspelled : ∀ op, admits op → op.Spelled ids)
    (hadmits : ∀ op, admits op → admits' (op.respell ids)) :
    Lockstep (storeServer P timeouts (fun t => ColumnExec ids (exec t)) environment admits)
      (storeServer P timeouts exec environment admits') (Respells ids) fun w => (tables w).Stored ids where
  spawn op hop := ⟨op.respell ids, hadmits op hop, rfl, rfl, Or.inr ⟨rfl, respelled_serve (hspelled op hop)⟩⟩
  environment hstored henv := ⟨by rwa [B.environment henv], henv⟩
  run {t req trace w c next a w' th'} hstored hrel hexec := by
    obtain ⟨req', trace', prog'⟩ := th'
    obtain ⟨hreq, htrace, hprog⟩ := hrel
    dsimp only at hreq htrace hprog
    have hexec : ColumnExec ids (exec t) w c a w' := hexec
    have hanswers := answers_of_columnExec B hstored hexec
    have hcases : (prog' = .call c next ∧ Spells ids (fun _ => True) (.call c next)) ∨
        (trace = [] ∧ ∃ id next', Prog.call c next = .call (.projectsGet id) next' ∧
          prog' = .call (.projectsGet (ids.spell id)) next' ∧
          ∀ a, ids.Answers (.projectsGet id) a → Spells ids (fun _ => True) (next' a)) := by
      rcases hprog with hsame | ⟨hnil, hsame | hlookup⟩
      · exact Or.inl hsame
      · exact Or.inl hsame
      · exact Or.inr ⟨hnil, hlookup⟩
    rcases hcases with ⟨rfl, hspells⟩ | ⟨rfl, id, next', hcall, rfl, hnext⟩
    · refine ⟨stored_of_columnExec B (Or.inl hspells.1) hstored hexec, c, next, a, rfl,
        exec_of_columnExec B hspells.1 hexec, hreq, ?_, Or.inl ⟨rfl, hspells.2 a hanswers⟩⟩
      have hevent : spellEvent ids ⟨w, c, a, w'⟩ = ⟨w, c, a, w'⟩ := spellEvent_of_spelled hspells.1
      rw [htrace]
      cases trace with
      | nil => exact congrArg (fun e => [e]) hevent.symm
      | cons e trace => rfl
    · cases hcall
      refine ⟨stored_of_columnExec B (Or.inr ⟨id, rfl⟩) hstored hexec, .projectsGet (ids.spell id), next', a, rfl,
        lookup_of_columnExec B hexec, hreq, ?_, Or.inl ⟨rfl, hnext a hanswers⟩⟩
      rw [htrace]
      rfl

/-! ### The two pasts -/

theorem spellTrace_split {trace earlier' later : List (Event W Cmd Cmd.Answer)} {e' : Event W Cmd Cmd.Answer}
    (h : spellTrace ids trace = earlier' ++ e' :: later) : ∃ earlier e, trace = earlier ++ e :: later ∧
      earlier' = spellTrace ids earlier ∧ (e' = e ∨ e' = spellEvent ids e) := by
  cases trace with
  | nil => simp at h
  | cons first rest =>
      cases earlier' with
      | nil =>
          obtain ⟨rfl, rfl⟩ := List.cons.inj h
          exact ⟨[], first, rfl, rfl, Or.inr rfl⟩
      | cons first' earlier =>
          obtain ⟨rfl, rfl⟩ := List.cons.inj h
          exact ⟨first :: earlier, e', rfl, rfl, Or.inl rfl⟩

/-- Only lookups are spelled in another way. -/
theorem mem_spellTrace {trace : List (Event W Cmd Cmd.Answer)} {x : Event W Cmd Cmd.Answer}
    (hx : ∀ id, x.cmd ≠ .projectsGet id) : x ∈ spellTrace ids trace ↔ x ∈ trace := by
  cases trace with
  | nil => rfl
  | cons first rest =>
      have hfirst : x = spellEvent ids first ↔ x = first := by
        obtain ⟨w, c, a, w'⟩ := first
        cases c with
        | projectsGet id =>
            constructor
            · rintro rfl
              exact absurd rfl (hx (ids.spell id))
            · rintro rfl
              exact absurd rfl (hx id)
        | _ => rfl
      show x ∈ spellEvent ids first :: rest ↔ x ∈ first :: rest
      rw [List.mem_cons, List.mem_cons, hfirst]

/-- The events of the two pasts have the same worlds. -/
theorem exists_mem_spellTrace {trace : List (Event W Cmd Cmd.Answer)} {e : Event W Cmd Cmd.Answer} (h : e ∈ trace) :
    ∃ e' ∈ spellTrace ids trace, e'.before = e.before ∧ e'.after = e.after := by
  cases trace with
  | nil => cases h
  | cons first rest =>
      rcases List.mem_cons.mp h with rfl | h
      · exact ⟨_, List.mem_cons_self .., before_spellEvent e, after_spellEvent e⟩
      · exact ⟨e, List.mem_cons_of_mem _ h, rfl, rfl⟩

theorem exists_mem_of_spellTrace {trace : List (Event W Cmd Cmd.Answer)} {e' : Event W Cmd Cmd.Answer}
    (h : e' ∈ spellTrace ids trace) : ∃ e ∈ trace, e'.before = e.before ∧ e'.after = e.after := by
  cases trace with
  | nil => cases h
  | cons first rest =>
      rcases List.mem_cons.mp h with rfl | h
      · exact ⟨first, List.mem_cons_self .., before_spellEvent first, after_spellEvent first⟩
      · exact ⟨e', List.mem_cons_of_mem _ h, rfl, rfl⟩

theorem Respells.result {th th' : Thread W Cmd Cmd.Answer Failure Response Operation} (h : Respells ids th th') :
    th'.prog.result? = th.prog.result? := by
  rcases h.prog with ⟨hsame, -⟩ | ⟨-, ⟨hsame, -⟩ | ⟨id, next, hprog, hprog', -⟩⟩
  · rw [hsame]
  · rw [hsame]
  · rw [hprog, hprog']
    rfl

end Runs

/-! ## The database -/

section Database
variable {R : Type} {restic : Restic R} {ids : IdColumn} {P : Platform} {timeouts : ResticTimeouts}
  {admits : Operation → Prop}

theorem backs_exec (restic : Restic R) :
    Backs (fun w : World R => w.db.toTables) (Exec restic) (Outside restic) where
  fails {t w c a} h := by
    cases c with
    | projectsGet id | secretsGet id => exact ⟨rfl, Or.inr h⟩
    | secretsList projectId => exact ⟨rfl, Or.inr h⟩
    | transact tx =>
        obtain ⟨m, rfl⟩ := h
        exact Or.inl ⟨m, rfl, rfl⟩
    | _ => exact h.elim
  project h := by
    rcases h.2 with hrow | ⟨m, hrow⟩
    · exact List.mem_of_find?_eq_some (Except.ok.inj hrow).symm
    · cases hrow
  projects h p hp := by
    rcases h.2 with ⟨l, hl, hperm⟩ | ⟨m, hl⟩
    · cases hl
      exact hperm.mem_iff.mp hp
    · cases hl
  secrets h s hs := (Tables.mem_rows.mp ((exec_listed h).mem_iff.mp hs)).1
  run {t w c a w'} h := by
    cases hcommitted : committed? (⟨w, c, a, w'⟩ : ServerEvent R) with
    | none => exact Or.inl (congrArg Db.toTables (exec_db h hcommitted))
    | some x =>
        obtain ⟨w₁, w₂, hevent⟩ := committed?_eq_some hcommitted
        cases hevent
        refine Or.inr ⟨x.1, rfl, ?_⟩
        rw [(exec_committed h).1]
  environment := by
    rintro w w' ⟨r, -, rfl⟩
    rfl

/-- The view of an operation does not see how the id of its first lookup is spelled. -/
theorem viewAfter_spellTrace (trace : List (ServerEvent R)) : viewAfter (spellTrace ids trace) = viewAfter trace := by
  cases trace with
  | nil => rfl
  | cons e trace =>
      have hfirst : View.start.step (spellEvent ids e).cmd (spellEvent ids e).answer =
          View.start.step e.cmd e.answer := by
        obtain ⟨w, c, a, w'⟩ := e
        cases c with
        | projectsGet id => cases a <;> rfl
        | _ => rfl
      show List.foldl _ (View.start.step (spellEvent ids e).cmd (spellEvent ids e).answer) trace = _
      rw [hfirst]
      rfl

theorem committed?_spellEvent (e : ServerEvent R) : committed? (spellEvent ids e) = committed? e := by
  obtain ⟨w, c, a, w'⟩ := e
  cases c with
  | projectsGet id => rfl
  | _ => rfl

theorem spellEvent_of_committed {e : ServerEvent R} {x : Transaction × Nat}
    (h : committed? (spellEvent ids e) = some x) : spellEvent ids e = e := by
  obtain ⟨w, c, a, w'⟩ := e
  cases c with
  | projectsGet id => cases h
  | _ => rfl

/-- A condition on the events of a run that goes by their views, worlds and committed transactions. -/
structure SpellingFree (ids : IdColumn) (Cond : List (ServerEvent R) → ServerEvent R → Prop) : Prop where
  earlier : ∀ {earlier e}, Cond (spellTrace ids earlier) e ↔ Cond earlier e
  event : ∀ {earlier e}, Cond earlier (spellEvent ids e) ↔ Cond earlier e

/-- Such a condition holds of the events of the one run when it does of those of the other. -/
theorem past_iff {Cond : List (ServerEvent R) → ServerEvent R → Prop} (hfree : SpellingFree ids Cond)
    {cfg cfg' : Config (World R) Cmd Cmd.Answer Failure Response Operation} (h : cfg.Beside (Respells ids) cfg') :
    System.Past (fun _ _ earlier e => Cond earlier e) cfg' ↔ System.Past (fun _ _ earlier e => Cond earlier e) cfg := by
  have htrace : ∀ trace : List (ServerEvent R),
      (∀ earlier e later, spellTrace ids trace = earlier ++ e :: later → Cond earlier e) ↔
        ∀ earlier e later, trace = earlier ++ e :: later → Cond earlier e := by
    intro trace
    constructor
    · rintro hpast earlier e later rfl
      cases earlier with
      | nil => exact hfree.event.mp (hpast [] _ later rfl)
      | cons first earlier => exact hfree.earlier.mp (hpast (spellTrace ids (first :: earlier)) e later rfl)
    · intro hpast earlier' e' later hsplit
      obtain ⟨earlier, e, rfl, rfl, rfl | rfl⟩ := spellTrace_split hsplit
      · exact hfree.earlier.mpr (hpast earlier e' later rfl)
      · exact hfree.earlier.mpr (hfree.event.mpr (hpast earlier e later rfl))
  constructor
  · intro hpast t th hth
    obtain ⟨th', hth', hrel⟩ := h.threads hth
    have hpast' := hpast t th' hth'
    rw [hrel.trace] at hpast'
    exact (htrace th.trace).mp hpast'
  · intro hpast t th' hth'
    obtain ⟨th, hth, hrel⟩ := h.thread hth'
    rw [hrel.trace]
    exact (htrace th.trace).mpr (hpast t th hth)

/-- The two runs go through the same worlds. -/
theorem worlds_iff {J : World R → Prop} {cfg cfg' : Config (World R) Cmd Cmd.Answer Failure Response Operation}
    (h : cfg.Beside (Respells ids) cfg') :
    (∀ th ∈ cfg'.threads, ∀ e ∈ th.trace, J e.before ∧ J e.after) ↔
      ∀ th ∈ cfg.threads, ∀ e ∈ th.trace, J e.before ∧ J e.after := by
  constructor
  · intro hall th hth e he
    obtain ⟨t, ht⟩ := List.getElem?_of_mem hth
    obtain ⟨th', hth', hrel⟩ := h.threads ht
    obtain ⟨e', he', hbefore, hafter⟩ := exists_mem_spellTrace he
    rw [← hbefore, ← hafter]
    exact hall th' (List.mem_of_getElem? hth') e' (hrel.trace ▸ he')
  · intro hall th' hth' e' he'
    obtain ⟨t, ht⟩ := List.getElem?_of_mem hth'
    obtain ⟨th, hth, hrel⟩ := h.thread ht
    obtain ⟨e, he, hbefore, hafter⟩ := exists_mem_of_spellTrace (hrel.trace ▸ he')
    rw [hbefore, hafter]
    exact hall th (List.mem_of_getElem? hth) e he

/-- **A run on the columns whose requests spell their ids is a run of the server.** -/
theorem serverOn_mirrored (admits' : Operation → Prop) (hspelled : ∀ op, admits op → op.Spelled ids)
    (hadmits : ∀ op, admits op → admits' (op.respell ids)) {db : Db} (hstored : db.toTables.Stored ids) {repository : R}
    {cfg : Config (World R) Cmd Cmd.Answer Failure Response Operation}
    (h : (serverOn ids P timeouts restic admits).Reachable (.initial db repository) cfg) :
    ∃ cfg', (server P timeouts restic admits').Reachable (.initial db repository) cfg' ∧
      cfg.Beside (Respells ids) cfg' :=
  ((lockstep_respells (backs_exec restic) hspelled hadmits).reachable h hstored).2

end Database

/-! ## Playing on columns -/

section Play
variable {W : Type} {ids : IdColumn} {exec : W → (c : Cmd) → c.Answer → W → Prop}

/-- The answer of a command with readable ids. -/
def actOn (ids : IdColumn) (act : W → (c : Cmd) → JsString → Option (c.Answer × W)) (w : W) (c : Cmd)
    (fresh : JsString) : Option (c.Answer × W) :=
  if c.Readable ids then
    match c with
    | .projectsGet id => act w (.projectsGet (ids.spell id)) fresh
    | .secretsList projectId => act w (.secretsList (ids.spell projectId)) fresh
    | .secretsGet id => act w (.secretsGet (ids.spell id)) fresh
    | .transact tx => act w (.transact (tx.withIds ids.spell)) fresh
    | .uuid => if ids.Stored fresh then act w .uuid fresh else none
    | c => act w c fresh
  else none

theorem actOn_exec {act : W → (c : Cmd) → JsString → Option (c.Answer × W)}
    (hact : ∀ {w c fresh a w'}, act w c fresh = some (a, w') → exec w c a w')
    (huuid : ∀ {w fresh a w'}, act w .uuid fresh = some (a, w') → a = fresh) {w w' : W} {c : Cmd} {fresh : JsString}
    {a : c.Answer} (h : actOn ids act w c fresh = some (a, w')) : ColumnExec ids exec w c a w' := by
  unfold actOn at h
  by_cases hreadable : c.Readable ids
  · rw [if_pos hreadable] at h
    refine Or.inr ⟨hreadable, ?_⟩
    cases c with
    | projectsGet id =>
        have h : act w (.projectsGet (ids.spell id)) fresh = some (a, w') := h
        exact hact h
    | secretsList projectId =>
        have h : act w (.secretsList (ids.spell projectId)) fresh = some (a, w') := h
        exact hact h
    | secretsGet id =>
        have h : act w (.secretsGet (ids.spell id)) fresh = some (a, w') := h
        exact hact h
    | transact tx =>
        have h : act w (.transact (tx.withIds ids.spell)) fresh = some (a, w') := h
        exact hact h
    | uuid =>
        by_cases hstored : ids.Stored fresh
        · have h : act w .uuid fresh = some (a, w') := (if_pos hstored).symm.trans h
          obtain rfl := huuid h
          exact ⟨hstored, hact h⟩
        · cases (if_neg hstored).symm.trans h
    | _ => exact hact h
  · rw [if_neg hreadable] at h
    cases h

theorem act_uuid {R : Type} {run : R → ResticOp → ResticAnswer × R} {t : Nat} {w w' : World R} {fresh id : JsString}
    (h : act run t w .uuid fresh = some (id, w')) : id = fresh := by
  rw [act] at h
  split_ifs at h
  cases h
  rfl

noncomputable def playOn (ids : IdColumn) (moves : List (Move Operation JsString)) (w : World Snapshots) :
    Option (Config (World Snapshots) Cmd Cmd.Answer Failure Response Operation) :=
  play (serve runPlatform exampleTimeouts) (fun t _ _ => actOn ids (act Snapshots.run t)) moves ⟨w, []⟩

theorem playOn_reachable {admits : Operation → Prop} {moves : List (Move Operation JsString)}
    (hadmits : ∀ op, Move.spawn op ∈ moves → admits op) {w : World Snapshots}
    {cfg : Config (World Snapshots) Cmd Cmd.Answer Failure Response Operation} (h : playOn ids moves w = some cfg) :
    (serverOn ids runPlatform exampleTimeouts Snapshots.restic admits).Reachable w cfg := by
  have hact : ∀ (t : Nat) (op : Operation) (trace : List (ServerEvent Snapshots)) (w : World Snapshots) (c : Cmd)
      (fresh : JsString) (a : c.Answer) (w' : World Snapshots),
      actOn ids (act Snapshots.run t) w c fresh = some (a, w') →
      (serverOn ids runPlatform exampleTimeouts Snapshots.restic admits).exec t op trace w c a w' :=
    fun _ _ _ _ _ _ _ _ h => actOn_exec (act_exec fun _ _ _ => rfl) act_uuid h
  exact play_steps hact hadmits h

end Play

end SecretsManager
