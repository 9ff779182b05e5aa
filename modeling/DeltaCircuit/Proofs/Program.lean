import DeltaCircuit.Program
import DeltaCircuit.Proofs.Circuit.EmbeddingPasses
import DeltaCircuit.Proofs.Plan.Lockstep

/-!
# Commands that fail

A command that fails may leave operators, diagnostics and the name of a view behind. Nothing of this
can be seen in the compiled program: the operators are extra ones, which the passes forget, and all
other commands do what they would have done. Only the name stays taken.

* `Compiler.Tracks` — a compiler beside one that has also run commands that failed.
* `Compiler.Tracks.run` — one more command.
* `Compiler.finish_feed` — failed commands leave no trace in what is compiled.
* `Compiler.accepts_after_failure` — after a failed command, every other command succeeds or fails
  as before; a view whose name was taken by the failed one fails.
-/

namespace DeltaCircuit

/-! ### Commands on states of lowering -/

/-- Both runs of a command succeed and lead to corresponding states, or both fail and the second one
leaves nothing but extra operators behind. -/
inductive Lowering.Proceeds (t : Lowering) :
    Except CompileError Unit × Lowering → Except CompileError Unit × Lowering → Prop
  | ok {o : Nat → Nat} {t' s' : Lowering} :
      Embeds o t' s' → Proceeds t (.ok (), t') (.ok (), s')
  | error {o : Nat → Nat} {t' s' : Lowering} (e e' : CompileError) :
      Embeds o t s' → Proceeds t (.error e, t') (.error e', s')

namespace Compiler

variable {o : Nat → Nat} {t s : Lowering}

section

variable {name : String} {schema : Schema}

/-- The steps of creating a table, with the look-up in the open. -/
theorem createTable_run :
    createTable name schema t =
      ((do
        if (Assoc.get? t.tables name).isSome then throw (.duplicateTable name)
        let source ← Lower.append (·.addSource name schema.rowType)
        modify fun t => { t with tables := Assoc.set t.tables name ⟨source, schema⟩ } :
          Lower Unit)) t := rfl

theorem createTable_of_known (h : (Assoc.get? t.tables name).isSome = true) :
    createTable name schema t = (.error (.duplicateTable name), t) := by
  rw [createTable_run, if_pos h]
  rfl

theorem createTable_of_ok {source : OperatorId} {t' : Lowering}
    (hnew : (Assoc.get? t.tables name).isSome = false)
    (h : Lower.append (·.addSource name schema.rowType) t = (.ok source, t')) :
    createTable name schema t =
      (.ok (), { t' with tables := Assoc.set t'.tables name ⟨source, schema⟩ }) := by
  rw [createTable_run, if_neg (by simp [hnew])]
  exact ExceptT.bind_run_ok h

theorem createTable_of_error {e : CompileError} {t' : Lowering}
    (hnew : (Assoc.get? t.tables name).isSome = false)
    (h : Lower.append (·.addSource name schema.rowType) t = (.error e, t')) :
    createTable name schema t = (.error e, t') := by
  rw [createTable_run, if_neg (by simp [hnew])]
  exact ExceptT.bind_run_error h

/-- A table is created on both sides or on neither. -/
theorem proceeds_createTable (h : Lowering.Embeds o t s) (name : String) (schema : Schema) :
    t.Proceeds (createTable name schema t) (createTable name schema s) := by
  have hfound : (Assoc.get? s.tables name).isSome = (Assoc.get? t.tables name).isSome := by
    rw [h.tables, Assoc.get?_map, Option.isSome_map]
  cases hknown : (Assoc.get? t.tables name).isSome with
  | true =>
    rw [createTable_of_known hknown, createTable_of_known (hfound.trans hknown)]
    exact .error _ _ h
  | false =>
    -- the new source fits in both circuits or in neither
    rcases h.append none nofun (.source name schema.rowType) []
      with ⟨derived, ht, hs, hts⟩ | ⟨e, e', ht, hs⟩
    · rw [createTable_of_ok hknown ht, createTable_of_ok (hfound.trans hknown) hs]
      refine .ok (o := o) ⟨hts.circuit, ⟨hts.small.built, hts.small.functions⟩,
        ⟨hts.large.built, hts.large.functions⟩, ?_, fun entry hentry => ?_⟩
      · -- the new source stands at the end of both circuits
        show Assoc.set s.tables name ⟨s.circuit.size, schema⟩ = _
        rw [← h.circuit.place_size, h.tables]
        exact Assoc.set_map t.tables (Table.rename o) name ⟨t.circuit.size, schema⟩
      · rcases Assoc.mem_set hentry with hold | rfl
        · exact hts.sources entry hold
        · show t.circuit.size < (t.circuit.push _).size
          rw [Circuit.size_push]
          omega
    · rw [createTable_of_error hknown ht, createTable_of_error (hfound.trans hknown) hs]
      exact .error e e' h

/-- A view is created on both sides or on neither. What is left of one that has failed are extra
operators. -/
theorem proceeds_createView (h : Lowering.Embeds o t s) (name query : String)
    (comment : Option String) (plan : Plan) :
    t.Proceeds (createView name query comment plan t) (createView name query comment plan s) := by
  obtain ⟨houtcome, hembeds, hgrows⟩ := plan.lockstep_lower t s h
  obtain ⟨r, t', ht⟩ : ∃ r t', plan.lower t = (r, t') := ⟨_, _, rfl⟩
  obtain ⟨r', s', hs⟩ : ∃ r' s', plan.lower s = (r', s') := ⟨_, _, rfl⟩
  rw [ht, hs] at houtcome hembeds
  rw [ht] at hgrows
  have hleft {u : Lowering} (hu : Lowering.Embeds o t' u) : ∃ o', Lowering.Embeds o' t u :=
    hu.of_grows h.small h.sources hgrows
  unfold createView
  cases houtcome with
  | error e e' =>
    obtain ⟨o', h'⟩ := hleft hembeds
    rw [ExceptT.bind_run_error ht, ExceptT.bind_run_error hs]
    exact .error e e' h'
  | @ok output output' houtput =>
    obtain rfl : output' = o output := houtput
    rw [ExceptT.bind_run_ok ht, ExceptT.bind_run_ok hs]
    -- the plan has gone through in both, and then so does the sink or it fails in both
    rcases hembeds.append none nofun (.sink name query comment) [output]
      with ⟨derived, ht', hs', hts⟩ | ⟨e, e', ht', hs'⟩
    · have hrun := ExceptT.discard_run_ok ht'
      have hrun' := ExceptT.discard_run_ok hs'
      exact hrun ▸ hrun' ▸ .ok hts
    · obtain ⟨o', h'⟩ := hleft hembeds
      have hrun := ExceptT.discard_run_error ht'
      have hrun' := ExceptT.discard_run_error hs'
      exact hrun ▸ hrun' ▸ .error e e' h'

end

/-! ### Commands on compilers -/

end Compiler

/-- The name of the view that a command creates. -/
def Command.view? : Command → Option String
  | .createView name _ _ _ => some name
  | _ => none

namespace Compiler

/-- **Tracking.** The second compiler has done what the first one has done, and has run commands
that have failed besides. -/
structure Tracks (o : Nat → Nat) (clean dirty : Compiler) : Prop where
  options : dirty.options = clean.options
  lowering : Lowering.Embeds o clean.lowering dirty.lowering
  views : clean.views ⊆ dirty.views
  contents : dirty.contents = clean.contents

/-- Both runs of a command succeed and the second compiler goes on tracking the first one, or both
fail and the second one tracks what the first one has been before. -/
inductive Proceeds (clean : Compiler) :
    Except CompileError Unit × Compiler → Except CompileError Unit × Compiler → Prop
  | ok {o : Nat → Nat} {clean' dirty' : Compiler} :
      Tracks o clean' dirty' → Proceeds clean (.ok (), clean') (.ok (), dirty')
  | error {o : Nat → Nat} {clean' dirty' : Compiler} (e e' : CompileError) :
      Tracks o clean dirty' → Proceeds clean (.error e, clean') (.error e', dirty')

variable {o : Nat → Nat} {c clean dirty : Compiler} {command : Command}

theorem runLowering_eq {α : Type} (c : Compiler) (action : Lower α) :
    c.runLowering action =
      ((action c.lowering).1, { c with lowering := (action c.lowering).2 }) := rfl

/-- Rows for a table change nothing but what tables contain. -/
theorem addRows_snd (c : Compiler) (table : String) (rows : List ConstantRow) (weight : Int) :
    ∃ contents, (c.addRows table rows weight).2 = { c with contents } := by
  unfold addRows
  cases c.contentsWith table rows weight with
  | ok contents => exact ⟨_, rfl⟩
  | error e => exact ⟨_, rfl⟩

/-- Rows are added to a table on both sides or on neither. -/
theorem Tracks.contentsWith_eq (h : Tracks o clean dirty) (table : String)
    (rows : List ConstantRow) (weight : Int) :
    dirty.contentsWith table rows weight = clean.contentsWith table rows weight := by
  have hfound : Assoc.get? dirty.lowering.tables table =
      (Assoc.get? clean.lowering.tables table).map (Table.rename o) := by
    rw [h.lowering.tables, Assoc.get?_map]
  unfold contentsWith
  rw [hfound, h.contents]
  cases Assoc.get? clean.lowering.tables table with
  | none => rfl
  | some found => rfl

theorem Tracks.addRows (h : Tracks o clean dirty) (table : String) (rows : List ConstantRow)
    (weight : Int) :
    clean.Proceeds (clean.addRows table rows weight) (dirty.addRows table rows weight) := by
  unfold Compiler.addRows
  rw [h.contentsWith_eq]
  cases clean.contentsWith table rows weight with
  | error e => exact .error e e h
  | ok contents => exact .ok ⟨h.options, h.lowering, h.views, by rw [h.contents]⟩

/-- A step of lowering that proceeds on both sides, with names of views that correspond. -/
theorem Tracks.runLowering (h : Tracks o clean dirty) {action : Lower Unit}
    {views views' : List String} (hviews : views ⊆ views') (hkept : clean.views ⊆ views')
    (haction : clean.lowering.Proceeds (action clean.lowering) (action dirty.lowering)) :
    clean.Proceeds ({ clean with views := views }.runLowering action)
      ({ dirty with views := views' }.runLowering action) := by
  rw [runLowering_eq, runLowering_eq]
  generalize action clean.lowering = x, action dirty.lowering = y at haction
  cases haction with
  | ok hembeds => exact .ok ⟨h.options, hembeds, hviews, h.contents⟩
  | error e e' hembeds => exact .error e e' ⟨h.options, hembeds, hkept, h.contents⟩

/-- A view whose name is taken fails and changes nothing. -/
theorem run_of_taken {name : String} (hview : command.view? = some name)
    (htaken : name ∈ c.views) : c.run command = (.error (.duplicateView name), c) := by
  cases command with
  | createView name' query comment plan =>
    obtain rfl := Option.some.inj hview
    exact if_pos (by simpa using htaken)
  | _ => cases hview

/-- A view whose name is free is compiled under that name. -/
theorem run_createView {name query : String} {comment : Option String} {plan : Plan}
    (hfree : name ∉ c.views) :
    c.run (.createView name query comment plan) =
      { c with views := c.views ++ [name] }.runLowering
        (createView name query comment plan) :=
  if_neg (by simpa using hfree)

/-- **One more command.** A command proceeds on both sides, unless it creates a view whose name is
taken on the second side only. -/
theorem Tracks.run (h : Tracks o clean dirty) (command : Command)
    (hview : ∀ name, command.view? = some name → name ∈ dirty.views → name ∈ clean.views) :
    clean.Proceeds (clean.run command) (dirty.run command) := by
  cases command with
  | createTable name schema =>
    exact h.runLowering h.views h.views (proceeds_createTable h.lowering name schema)
  | createView name query comment plan =>
    by_cases htaken : name ∈ dirty.views
    · rw [run_of_taken rfl htaken, run_of_taken rfl (hview name rfl htaken)]
      exact .error _ _ h
    · have hviews : clean.views ++ [name] ⊆ dirty.views ++ [name] :=
        List.append_subset.mpr ⟨List.subset_append_of_subset_left _ h.views,
          List.subset_append_right _ _⟩
      rw [run_createView htaken, run_createView fun hname => htaken (h.views hname)]
      exact h.runLowering hviews (List.subset_append_of_subset_left _ h.views)
        (proceeds_createView h.lowering name query comment plan)
  | insert table rows => exact h.addRows table rows 1
  | delete table rows => exact h.addRows table rows (-1)

/-! ### Sequences of commands -/

/-- Runs commands one after another, whether they succeed or not. The commands that have succeeded
come along. -/
def feed (c : Compiler) : List Command → List Command × Compiler
  | [] => ([], c)
  | command :: commands =>
    match c.run command with
    | (.ok (), next) => (command :: (next.feed commands).1, (next.feed commands).2)
    | (.error _, next) => next.feed commands

/-- A run without a failure has run all that it was fed. -/
theorem feed_of_runAll {c' : Compiler} {commands : List Command} (h : c.runAll commands = .ok c') :
    c.feed commands = (commands, c') := by
  induction commands generalizing c with
  | nil =>
    obtain rfl := Except.ok.inj h
    rfl
  | cons command commands ih =>
    unfold runAll at h
    split at h
    · next next hnext =>
      rw [feed, hnext]
      dsimp only
      rw [ih h]
    · cases h

theorem Proceeds.outcome {x y : Except CompileError Unit × Compiler} (h : clean.Proceeds x y) :
    (∃ o clean' dirty', x = (.ok (), clean') ∧ y = (.ok (), dirty') ∧ Tracks o clean' dirty') ∨
      ∃ o e e' clean' dirty', x = (.error e, clean') ∧ y = (.error e', dirty') ∧
        Tracks o clean dirty' := by
  cases h with
  | ok h => exact .inl ⟨_, _, _, rfl, rfl, h⟩
  | error e e' h => exact .inr ⟨_, e, e', _, _, rfl, rfl, h⟩

/-- **Fed commands.** A compiler that is fed commands tracks one that runs those that succeed, and
they succeed there too. -/
theorem Tracks.feed (h : Tracks o clean dirty) (commands : List Command) :
    ∃ o' clean', clean.runAll (dirty.feed commands).1 = .ok clean' ∧
      Tracks o' clean' (dirty.feed commands).2 := by
  induction commands generalizing o clean dirty with
  | nil => exact ⟨o, clean, rfl, h⟩
  | cons command commands ih =>
    by_cases htaken : ∃ name, command.view? = some name ∧ name ∈ dirty.views
    -- a name that is taken changes nothing, and the command is no part of the clean run
    · obtain ⟨name, hview, hname⟩ := htaken
      have hfeed : dirty.feed (command :: commands) = dirty.feed commands := by
        rw [Compiler.feed, run_of_taken hview hname]
      rw [hfeed]
      exact ih h
    · have hproceeds := h.run command
        fun name hview hname => absurd ⟨name, hview, hname⟩ htaken
      -- an accepted command is taken over, a failed one leaves its operators in the dirty circuit
      rcases hproceeds.outcome with
        ⟨o', clean', dirty', hclean, hdirty, h'⟩ | ⟨o', e, e', clean', dirty', -, hdirty, h'⟩
      · obtain ⟨o'', clean'', hrun, h''⟩ := ih h'
        rw [Compiler.feed, hdirty]
        refine ⟨o'', clean'', ?_, h''⟩
        rw [runAll, hclean]
        exact hrun
      · rw [Compiler.feed, hdirty]
        exact ih h'

theorem tracks_start (options : Options) : Tracks id (start options) (start options) where
  options := rfl
  lowering := {
    circuit := .empty _
    small := ⟨.empty _, nofun⟩
    large := ⟨.empty _, nofun⟩
    tables := rfl
    sources := nofun }
  views := List.Subset.refl _
  contents := rfl

/-! ### The compiled program -/

/-- A run of passes goes on from what the first pass gives. -/
theorem runAll_cons_of_ok (pass : Pass) {passes : List Pass} {t t' : Circuit}
    (h : pass.run t = .ok t') :
    Pass.runAll (pass :: passes) none t = Pass.runAll passes none t' := by
  unfold Pass.runAll
  rw [List.filter_cons_of_pos rfl, List.foldlM_cons, h]
  rfl

/-- The passes go through on both sides and leave the same circuit. -/
theorem Tracks.runPasses (h : Tracks o clean dirty) (options : Options) :
    ∃ t' s', Pass.runAll (passes options) none clean.lowering.circuit = .ok t' ∧
      Pass.runAll (passes options) none dirty.lowering.circuit = .ok s' ∧ t'.Alike s' := by
  obtain ⟨hsimplify, hbuilt⟩ :=
    h.lowering.small.built.simplifyFunctions h.lowering.small.functions
  obtain ⟨hsimplify', hbuilt'⟩ :=
    h.lowering.large.built.simplifyFunctions h.lowering.large.functions
  have hsimplified := h.lowering.circuit.simplifiedFrom
    clean.lowering.circuit.freshNumber dirty.lowering.circuit.freshNumber
  -- the passes run side by side, and the last one drops what failed commands have left
  unfold passes
  split
  · obtain ⟨hincrement, hbuilt₁⟩ := hbuilt.incrementalize_eq
    obtain ⟨hincrement', hbuilt₁'⟩ := hbuilt'.incrementalize_eq
    obtain ⟨o', hincremented⟩ := hsimplified.incremented hbuilt
    obtain ⟨t', s', hremove, hremove', halike⟩ :=
      hincremented.embeds.removeDeadCode hbuilt₁ hbuilt₁'
    refine ⟨t', s', ?_, ?_, halike⟩
    · rw [runAll_cons_of_ok .simplifyFunctions hsimplify,
        runAll_cons_of_ok .incrementalize hincrement, runAll_cons_of_ok .deadCode hremove]
      rfl
    · rw [runAll_cons_of_ok .simplifyFunctions hsimplify',
        runAll_cons_of_ok .incrementalize hincrement', runAll_cons_of_ok .deadCode hremove']
      rfl
  · obtain ⟨t', s', hremove, hremove', halike⟩ := hsimplified.removeDeadCode hbuilt hbuilt'
    refine ⟨t', s', ?_, ?_, halike⟩
    · rw [runAll_cons_of_ok .simplifyFunctions hsimplify, runAll_cons_of_ok .deadCode hremove]
      rfl
    · rw [runAll_cons_of_ok .simplifyFunctions hsimplify', runAll_cons_of_ok .deadCode hremove']
      rfl

/-- **Compiled alike.** Both compilers finish, with alike circuits and the same contents. -/
theorem Tracks.finish (h : Tracks o clean dirty) :
    ∃ small large, clean.finish = .ok small ∧ dirty.finish = .ok large ∧
      small.circuit.Alike large.circuit ∧ large.contents = small.contents := by
  obtain ⟨t', s', ht', hs', halike⟩ := h.runPasses clean.options
  refine ⟨⟨t', clean.contents, clean.lowering.diagnostics⟩,
    ⟨s', dirty.contents, dirty.lowering.diagnostics⟩, ?_, ?_, halike, h.contents⟩
  · unfold Compiler.finish
    rw [ht']
  · unfold Compiler.finish
    rw [h.options, hs']

/-- **Failed commands leave no trace.** A compiler that has been fed any commands, whether they
have succeeded or not, finishes; and the program made of just those that have succeeded compiles, to
an alike circuit and the same contents. -/
theorem finish_feed (options : Options) (commands : List Command) :
    ∃ small large,
      Program.compile options ((start options).feed commands).1 = .ok small ∧
      ((start options).feed commands).2.finish = .ok large ∧
      small.circuit.Alike large.circuit ∧ large.contents = small.contents := by
  obtain ⟨o, clean, hrun, htracks⟩ := (tracks_start options).feed commands
  obtain ⟨small, large, hsmall, hlarge, hsame⟩ := htracks.finish
  refine ⟨small, large, ?_, hlarge, hsame⟩
  unfold Program.compile
  rw [hrun]
  exact hsmall

/-! ### After a failure -/

/-- The compiler may come up, whatever has been run before, with or without success. -/
def Reachable (c : Compiler) : Prop :=
  ∃ options commands, ((start options).feed commands).2 = c

/-- The command would succeed now. -/
def Accepts (c : Compiler) (command : Command) : Prop := (c.run command).1 = .ok ()

/-- A compiler that tracks another one tracks itself. -/
theorem Tracks.self (h : Tracks o clean dirty) : Tracks id dirty dirty where
  options := rfl
  lowering := {
    circuit := .refl _
    small := h.lowering.large
    large := h.lowering.large
    tables := by
      have hid : (fun entry : String × Table => (entry.1, entry.2.rename id)) = id := rfl
      rw [hid, List.map_id]
    sources := fun entry hentry => by
      rw [h.lowering.tables] at hentry
      obtain ⟨origin, horigin, rfl⟩ := List.mem_map.mp hentry
      exact h.lowering.circuit.place_lt_size_iff.mpr (h.lowering.sources origin horigin) }
  views := List.Subset.refl _
  contents := rfl

theorem Reachable.tracks (hc : c.Reachable) : Tracks id c c := by
  obtain ⟨options, commands, rfl⟩ := hc
  obtain ⟨o, clean, -, htracks⟩ := (tracks_start options).feed commands
  exact htracks.self

/-- Options stay as they are. -/
theorem options_run (c : Compiler) (command : Command) : (c.run command).2.options = c.options := by
  cases command with
  | createTable name schema => rfl
  | createView name query comment plan =>
    by_cases htaken : name ∈ c.views
    · rw [run_of_taken rfl htaken]
    · rw [run_createView htaken, runLowering_eq]
  | insert table rows | delete table rows =>
    obtain ⟨contents, hadded⟩ := c.addRows_snd table rows _
    exact (congrArg Compiler.options hadded).trans rfl

theorem options_runAll {c' : Compiler} {commands : List Command}
    (h : c.runAll commands = .ok c') : c'.options = c.options := by
  induction commands generalizing c with
  | nil =>
    obtain rfl := Except.ok.inj h
    rfl
  | cons command commands ih =>
    unfold runAll at h
    split at h
    · next next hnext =>
      rw [ih h, ← options_run c command, hnext]
    · cases h

/-- A command takes the name of its view, whether it succeeds or not, and no other. -/
theorem mem_views_run (c : Compiler) (command : Command) (name : String) :
    name ∈ (c.run command).2.views ↔ name ∈ c.views ∨ command.view? = some name := by
  have hadd (table : String) (rows : List ConstantRow) (weight : Int) :
      (c.addRows table rows weight).2.views = c.views := by
    obtain ⟨contents, hadded⟩ := c.addRows_snd table rows weight
    rw [hadded]
  cases command with
  | createTable name' schema => simp [run, runLowering_eq, Command.view?]
  | createView name' query comment plan =>
    by_cases htaken : name' ∈ c.views
    · rw [run_of_taken rfl htaken]
      simp only [Command.view?, Option.some.injEq, iff_self_or]
      rintro rfl
      exact htaken
    · rw [run_createView htaken, runLowering_eq]
      simp [Command.view?, eq_comm]
  | insert table rows => simp [run, hadd, Command.view?]
  | delete table rows => simp [run, hadd, Command.view?]

/-- **After a failure.** After a command that has failed, a command succeeds just when it would have
succeeded without the failed one, except for a view of the name that the failed one has taken: that
one fails. -/
theorem accepts_after_failure (hc : c.Reachable) {failed command : Command}
    (hfailed : ¬c.Accepts failed) :
    (c.run failed).2.Accepts command ↔
      c.Accepts command ∧ ∀ name, failed.view? = some name → command.view? ≠ some name := by
  -- the circuit with what the failed command left embeds the one before it
  obtain ⟨o, htracks⟩ : ∃ o, Tracks o c (c.run failed).2 := by
    rcases (hc.tracks.run failed fun _ _ => id).outcome with
      ⟨o, clean', -, hrun, -, -⟩ | ⟨o, e, e', clean', dirty', -, hrun, htracks⟩
    · exact absurd (congrArg Prod.fst hrun) hfailed
    · exact ⟨o, hrun ▸ htracks⟩
  -- without a name in common the command proceeds in both
  have hsame (hname : ∀ name, failed.view? = some name → command.view? ≠ some name) :
      c.Accepts command ↔ (c.run failed).2.Accepts command := by
    have hproceeds := htracks.run command fun name hview htaken =>
      ((mem_views_run c failed name).mp htaken).resolve_right fun h => hname name h hview
    unfold Accepts
    rcases hproceeds.outcome with ⟨_, _, _, hclean, hdirty, -⟩ | ⟨_, _, _, _, _, hclean, hdirty, -⟩
    · rw [hclean, hdirty]
    · rw [hclean, hdirty]
      simp
  constructor
  · intro haccepts
    have hname : ∀ name, failed.view? = some name → command.view? ≠ some name := by
      intro name hfirst hagain
      have htaken := (mem_views_run c failed name).mpr (.inr hfirst)
      rw [Accepts, run_of_taken hagain htaken] at haccepts
      cases haccepts
    exact ⟨(hsame hname).mpr haccepts, hname⟩
  · rintro ⟨haccepts, hname⟩
    exact (hsame hname).mp haccepts

/-! #### A view that is tried twice -/

/-- A column of integers. -/
def integers : Schema := ⟨[⟨"COL1", .i32⟩]⟩

/-- A compiler that knows one table. -/
def oneTable : Compiler :=
  ((start .default).feed [.createTable "T" integers]).2

/-- A view that shows a table. -/
def showTable (view table : String) : Command :=
  .createView view "q" none (.scan table integers)

/-- The failure of a view of a table that does not exist changes nothing for a view of another
name. -/
theorem accepts_other_view :
    oneTable.Reachable ∧ ¬oneTable.Accepts (showTable "V" "U") ∧
      (oneTable.run (showTable "V" "U")).2.Accepts (showTable "W" "T") := by
  have hreachable : oneTable.Reachable := ⟨_, _, rfl⟩
  have hfailed : ¬oneTable.Accepts (showTable "V" "U") := nofun
  refine ⟨hreachable, hfailed, (accepts_after_failure hreachable hfailed).mpr ⟨rfl, ?_⟩⟩
  rintro _ ⟨⟩
  decide

/-- **A name stays taken.** A view that has failed cannot be tried again over an existing table,
though it could have been created there at first. -/
theorem not_accepts_retried_view :
    ¬∀ c : Compiler, c.Reachable → ∀ failed command, ¬c.Accepts failed →
      ((c.run failed).2.Accepts command ↔ c.Accepts command) := by
  intro h
  have hretry := h oneTable ⟨_, _, rfl⟩ (showTable "V" "U") (showTable "V" "T") nofun
  have hfirst : oneTable.Accepts (showTable "V" "T") := rfl
  exact absurd (hretry.mpr hfirst) nofun

end Compiler
end DeltaCircuit
