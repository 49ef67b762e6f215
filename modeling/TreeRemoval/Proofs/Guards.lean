import TreeRemoval.Command.Run
import TreeRemoval.Proofs.FileSystem.Ground
import TreeRemoval.Proofs.Protection
import TreeRemoval.Proofs.World.Chronicle

/-! # What the check refuses

A target that leads to a place, by a path without double dots, is refused exactly if the text of the
path or that of the place is guarded: the text of a protected directory or of something below one.
At most one protected directory guards a text, so that no order in which the directories are tried
shows in a refusal. A refused run of the command has looked at nodes and has done nothing else.
-/

namespace TreeRemoval

namespace Target

variable {σ : Type} {env : Environment σ} {t real guarded guarded' : String} {guards : List String}
  {target p : Path} {refusal : Refusal}

/-! ### Guarded texts -/

/-- The text of a protected directory or, the root apart, of something below one. -/
def IsGuarded (t : String) : Prop :=
  t ∈ protectedPaths ∨
    ∃ guarded ∈ protectedPaths, guarded ≠ "/" ∧ (guarded ++ "/").toList <+: t.toList

instance : DecidablePred IsGuarded := fun _ => inferInstanceAs (Decidable (_ ∨ _))

theorem isGuarded_iff : IsGuarded t ↔ ∃ guarded ∈ protectedPaths, isWithin guarded t = true := by
  simp only [isWithin_iff]
  constructor
  · rintro (h | ⟨guarded, hg, h⟩)
    · exact ⟨t, h, Or.inl rfl⟩
    · exact ⟨guarded, hg, Or.inr h⟩
  · rintro ⟨guarded, hg, rfl | h⟩
    · exact Or.inl hg
    · exact Or.inr ⟨guarded, hg, h⟩

def guardAmong? (guards : List String) (t : String) : Option String := guards.find? (isWithin · t)

theorem guardAmong?_eq_none_iff : guardAmong? protectedPaths t = none ↔ ¬ IsGuarded t := by
  simp [guardAmong?, isGuarded_iff]

theorem prefix_of_isWithin (h : isWithin guarded t = true) :
    (guarded ++ "/").toList <+: (t ++ "/").toList := by
  rcases isWithin_iff.1 h with rfl | ⟨-, h⟩
  · exact List.prefix_rfl
  · rw [String.toList_append (s := t)]
    exact h.trans (List.prefix_append _ _)

theorem protectedPaths_apart : ∀ guarded ∈ protectedPaths, ∀ guarded' ∈ protectedPaths,
    (guarded ++ "/").toList <+: (guarded' ++ "/").toList → guarded = guarded' := by
  decide +kernel

theorem eq_of_isWithin (hg : guarded ∈ protectedPaths) (hg' : guarded' ∈ protectedPaths)
    (h : isWithin guarded t = true) (h' : isWithin guarded' t = true) : guarded = guarded' := by
  rcases List.prefix_or_prefix_of_prefix (prefix_of_isWithin h) (prefix_of_isWithin h') with hp | hp
  · exact protectedPaths_apart guarded hg guarded' hg' hp
  · exact (protectedPaths_apart guarded' hg' guarded hg hp).symm

theorem isGuarded_path {place : Location} : IsGuarded place.path.text ↔ place.IsProtected :=
  not_iff_not.1 (guardAmong?_eq_none_iff.symm.trans guardOf?_path)

theorem guardAmong?_eq_some_iff (h : ∀ guarded, guarded ∈ guards ↔ guarded ∈ protectedPaths) :
    guardAmong? guards t = some guarded ↔
      guarded ∈ protectedPaths ∧ isWithin guarded t = true := by
  have hsound : ∀ {found}, guardAmong? guards t = some found →
      found ∈ protectedPaths ∧ isWithin found t = true := fun hf =>
    ⟨(h _).1 (List.mem_of_find?_eq_some hf), List.find?_some (p := (isWithin · t)) hf⟩
  refine ⟨hsound, fun ⟨hg, hw⟩ => ?_⟩
  cases hf : guardAmong? guards t with
  | none => exact absurd hw (List.find?_eq_none.1 hf guarded ((h guarded).2 hg))
  | some found => rw [eq_of_isWithin (hsound hf).1 hg (hsound hf).2 hw]

theorem guardAmong?_eq (h : ∀ guarded, guarded ∈ guards ↔ guarded ∈ protectedPaths) (t : String) :
    guardAmong? guards t = guardAmong? protectedPaths t := by
  ext guarded
  rw [guardAmong?_eq_some_iff h, guardAmong?_eq_some_iff fun _ => Iff.rfl]

/-! ### The order of the directories -/

/-- The answer of the check, when these directories are tried one after the other, first on the
normalised text and then on the real path. -/
def verdict (guards : List String) (target : Path) (real : String) : Except Refusal Path :=
  match guardAmong? guards target.normalize.text, guardAmong? guards real with
  | some guarded, _ | none, some guarded => .error ⟨target.normalize.text, guarded⟩
  | none, none => .ok target

def checkAmong (guards : List String) (env : Environment σ) (t : String) :
    EStateM Fault σ (Except Refusal Path) := do
  let given := Path.ofText t
  let target ←
    if given.isAbsolute then pure given
    else pure ((Path.ofText (← env.workingDirectory)).under given)
  return verdict guards target (← env.realPath target.normalize.text)

theorem judge_eq (target : Path) :
    judge env target =
      env.realPath target.normalize.text >>= fun real =>
        pure (verdict protectedPaths target real) := by
  unfold judge verdict
  refine bind_congr fun real => ?_
  change (match guardAmong? protectedPaths _, guardAmong? protectedPaths real with
    | some guarded, _ | none, some guarded => _
    | none, none => _) = _
  cases guardAmong? protectedPaths target.normalize.text <;>
    cases guardAmong? protectedPaths real <;> rfl

theorem checkAmong_protectedPaths (env : Environment σ) (t : String) :
    checkAmong protectedPaths env t = check env t := by
  rw [check_eq]
  unfold checkAmong
  simp only [judge_eq]
  cases (Path.ofText t).isAbsolute with
  | true => exact pure_bind _ _
  | false => exact bind_congr fun cwd => pure_bind _ _

theorem verdict_eq (h : ∀ guarded, guarded ∈ guards ↔ guarded ∈ protectedPaths) :
    verdict guards = verdict protectedPaths := by
  funext target real
  unfold verdict
  rw [guardAmong?_eq h, guardAmong?_eq h]

theorem checkAmong_eq (h : ∀ guarded, guarded ∈ guards ↔ guarded ∈ protectedPaths)
    (env : Environment σ) (t : String) : checkAmong guards env t = check env t := by
  rw [← checkAmong_protectedPaths]
  unfold checkAmong
  rw [verdict_eq h]

theorem verdict_refuses_iff :
    (∃ refusal, verdict protectedPaths target real = .error refusal) ↔
      IsGuarded target.normalize.text ∨ IsGuarded real := by
  rw [← not_iff_not, not_or, ← guardAmong?_eq_none_iff, ← guardAmong?_eq_none_iff]
  unfold verdict
  cases guardAmong? protectedPaths target.normalize.text <;>
    cases guardAmong? protectedPaths real <;> simp

theorem eq_of_verdict_ok (h : verdict guards target real = .ok p) : p = target := by
  unfold verdict at h
  split at h
  · cases h
  · cases h
  · exact (Except.ok.inj h).symm

/-! ### The answer in a quiet world -/

/-- Environments that answer looks at links alike have the same targets refused. -/
theorem alike_check {σ' : Type} {env' : Environment σ'} {R : σ → σ' → Prop}
    {E : Fault → σ → σ' → Prop} (hl : ∀ t, Alike R E (env.lstat t) (env'.lstat t))
    (hr : ∀ t, Alike R E (env.readLink t) (env'.readLink t))
    (hw : Alike R E env.workingDirectory env'.workingDirectory)
    (hrelated : ∀ {f s s'}, E f s s' → R s s') (t : String) :
    Alike R E (check env t) (check env' t) := by
  have hjudge : ∀ target, Alike R E (judge env target) (judge env' target) := by
    intro target
    rw [judge_eq, judge_eq]
    exact (RealPath.alike_realPath hl hr hrelated _).bind fun _ => .pure _
  rw [check_eq, check_eq]
  split
  · exact hjudge _
  · exact hw.bind fun _ => hjudge _

variable {w : World} {place : Location}

/-- The answer to a target that leads to a place compares its text and that of the place. Only a
null byte on the way keeps the check from answering. -/
theorem ends_check_verdict (hq : w.Quiet) (ha : (Path.ofText t).isAbsolute = true)
    (hdots : ".." ∉ (Path.ofText t).parts) (hl : w.files.locate true (.ofText t) = .ok place)
    (hthere : w.files.formAt? place ≠ none) (hshort : w.files.ShowsLinks (.ofText t)) :
    Ends (check World.environment t) w
      (fun answer w' => w.Still w' ∧ answer = verdict protectedPaths (.ofText t) place.path.text)
      (fun f _ => f = .nullByte ∧
        ∃ l ∈ w.files.trail true (.ofText t), '\x00' ∈ l.path.text.toList) := by
  have hnormal := Path.normalize_ofText hdots
  rw [check_eq, if_pos ha, judge_eq, hnormal]
  apply Ends.bind (World.ends_realPath hq (Path.proper_ofText t) ha hl hthere hshort)
  rintro real w' ⟨hfollows, hfiles, rfl⟩
  exact Ends.pure ⟨⟨hfollows, hfiles⟩, rfl⟩

end Target

/-! ### A refused run -/

namespace Chronicle

variable {σ α : Type} {c : Chronicle σ} {kind : Call} {others : Nat → List (σ → σ)}

def Records (c : Chronicle σ) (kind : Call) : Prop :=
  ∀ i ∈ c.past, ∀ entry ∈ i.call, entry.call = kind

theorem records_start (s : σ) (kind : Call) : (start s).Records kind := by
  rintro i hi entry he
  obtain rfl := List.mem_singleton.1 hi
  cases he

theorem Records.enter (h : c.Records kind) (t : String) (fault : Option Fault) (s : σ) :
    (c.enter ⟨kind, t, fault⟩ s).Records kind := by
  intro i hi entry he
  rcases List.mem_append.1 hi with hi | hi
  · exact h i hi entry he
  · obtain rfl := List.mem_singleton.1 hi
    exact Option.some.inj he ▸ rfl

def Witnesses (kind : Call) (s : σ) (c : Chronicle σ) : Prop := c.state = s ∧ c.Records kind

theorem alike_call_of_kind (hw : ∀ c, wait others c = c) (t : String) (work : EStateM Fault σ α) :
    Alike (Witnesses kind) (fun _ => Witnesses kind) work (call others kind t work) := by
  rintro _ c ⟨rfl, hc⟩
  refine (matches_call (hw c) kind t work).mono ?_ ?_
  · rintro _ s _ _ ⟨rfl, rfl⟩
    exact ⟨rfl, rfl, hc.enter t none s⟩
  · rintro _ s f _ ⟨rfl, rfl⟩
    exact ⟨rfl, rfl, hc.enter t (some f) s⟩

theorem alike_lift (ask : EStateM Fault σ α) :
    Alike (Witnesses kind) (fun _ => Witnesses kind) ask (lift ask) := by
  rintro _ c ⟨rfl, hc⟩
  refine (matches_lift ask).mono ?_ ?_
  · rintro _ s _ _ ⟨rfl, rfl⟩
    exact ⟨rfl, rfl, hc⟩
  · rintro _ s _ _ ⟨rfl, rfl⟩
    exact ⟨rfl, rfl, hc⟩

end Chronicle

namespace Command

open Chronicle

variable {σ : Type} {env : Environment σ} {now : σ → Float × σ} {o : Options} {s s' : σ}
  {refusal : Target.Refusal}

theorem run_of_refused {variableOf : String → Option String} {args : List String}
    (hargs : Request.ofArguments (Defaults.ofVariables variableOf) args = .perform o)
    (h : Target.check env o.path s = .ok (.error refusal) s') :
    run env now variableOf args s = (.refusal refusal.message, s') := by
  simp only [run, hargs, perform, h]

/-- A run of the command that has ended at the check of its target: with status 1, with the refusal
as its only text, and with looks at nodes as its only calls. -/
structure Rejected (w : World) (refusal : Target.Refusal) (run : Transcript × Chronicle World) :
    Prop where
  status : run.1.ending = .exit 1
  output : run.1.output = ""
  errors : run.1.errors = "Fatal error: " ++ refusal.message ++ "\n"
  files : run.2.state.files = w.files
  calls : run.2.Records .lstat

variable {w w' : World}

/-- A refused run makes no calls but looks at nodes, whatever its options. -/
theorem rejected_of_refused (h : Target.check World.environment o.path w = .ok (.error refusal) w')
    (hw : w.Still w') {variableOf : String → Option String} {args : List String}
    (hargs : Request.ofArguments (Defaults.ofVariables variableOf) args = .perform o)
    (now : Chronicle World → Float × Chronicle World) :
    Rejected w refusal (run (World.amid .none) now variableOf args (.start w)) := by
  have hwait : ∀ c : Chronicle World, wait Interference.none.steps c = c := fun _ => rfl
  have halike : Alike (Witnesses .lstat) (fun _ => Witnesses .lstat)
      (Target.check World.environment o.path) (Target.check (World.amid .none) o.path) := by
    apply Target.alike_check
    · exact fun t => alike_call_of_kind hwait t _
    · exact fun t => alike_lift _
    · exact alike_lift _
    · exact fun h => h
  rcases (halike w (.start w) ⟨rfl, records_start w .lstat⟩).ok_or_error with
    ⟨answer, w₁, _, c, hm, hm', rfl, rfl, hc⟩ | ⟨f, w₁, f', c, hm, -⟩
  · rw [h] at hm
    cases hm
    rw [run_of_refused hargs hm']
    exact ⟨rfl, rfl, rfl, hw.2, hc⟩
  · rw [h] at hm
    cases hm

end Command

namespace Target

/-- What the answer to a target that leads to a place says, and what comes of it. -/
structure Answers (w : World) (t : String) (place : Location) (answer : Except Refusal Path) :
    Prop where
  refused_iff : (∃ refusal, answer = .error refusal) ↔
    IsGuarded (Path.ofText t).normalize.text ∨ IsGuarded place.path.text
  passed : ∀ target, answer = .ok target → target = .ofText t
  rejected : ∀ refusal, answer = .error refusal → ∀ variableOf args o,
    Command.Request.ofArguments (Command.Defaults.ofVariables variableOf) args = .perform o →
      o.path = t → ∀ now, Command.Rejected w refusal
        (Command.run (World.amid .none) now variableOf args (.start w))

/-- With nobody else at work, a target by a path without double dots, which leads to a place on a
way without null bytes and over-long links, is refused exactly if its text or that of the place is
guarded. The answer is the same for every order of the protected directories. -/
theorem check_answers {w : World} (hq : w.Quiet) {t : String}
    (ha : (Path.ofText t).isAbsolute = true) (hdots : ".." ∉ (Path.ofText t).parts) {place : Location}
    (hl : w.files.locate true (.ofText t) = .ok place) (hthere : w.files.formAt? place ≠ none)
    (hshort : w.files.ShowsLinks (.ofText t))
    (hclean : ∀ loc ∈ w.files.trail true (.ofText t), '\x00' ∉ loc.path.text.toList) :
    ∃ answer w', check World.environment t w = .ok answer w' ∧ w.Still w' ∧
      Answers w t place answer ∧ ∀ guards, (∀ guarded, guarded ∈ guards ↔ guarded ∈ protectedPaths) →
        checkAmong guards World.environment t w = .ok answer w' := by
  obtain ⟨answer, w', hm, hw, rfl⟩ : ∃ answer w', check World.environment t w = .ok answer w' ∧
      w.Still w' ∧ answer = verdict protectedPaths (.ofText t) place.path.text := by
    refine ((ends_check_verdict hq ha hdots hl hthere hshort).mono (fun _ _ h => h) ?_).exists_ok
    rintro f w' ⟨-, loc, hm, hn⟩
    exact hclean loc hm hn
  refine ⟨_, w', hm, hw, ⟨verdict_refuses_iff, fun target => eq_of_verdict_ok, ?_⟩, ?_⟩
  · rintro refusal hr variableOf args o hargs rfl now
    rw [hr] at hm
    exact Command.rejected_of_refused hm hw hargs now
  · intro guards hguards
    rw [checkAmong_eq hguards, hm]

/-- A directory below a protected one, behind a link to a link. -/
def linkedTwice : World :=
  .make [.directory (.ofText "/etc/ssl/certs") 0, .leaf (.ofText "/srv/keys") (.link "../pub/./k") 0,
    .leaf (.ofText "/pub/k") (.link "/etc/ssl") 0] "/" none [] (.ofList [])

/-- Behind two links there is a protected directory, and the run ends without a call but looks. -/
theorem check_answers_linkedTwice :
    linkedTwice.Quiet ∧ (Path.ofText "/srv/keys/certs").isAbsolute = true ∧
      ".." ∉ (Path.ofText "/srv/keys/certs").parts ∧
      linkedTwice.files.locate true (.ofText "/srv/keys/certs") = .ok (.ofText "/etc/ssl/certs") ∧
      linkedTwice.files.formAt? (.ofText "/etc/ssl/certs") ≠ none ∧
      linkedTwice.files.ShowsLinks (.ofText "/srv/keys/certs") ∧
      (∀ loc ∈ linkedTwice.files.trail true (.ofText "/srv/keys/certs"),
        '\x00' ∉ loc.path.text.toList) ∧
      ∃ refusal, Command.Rejected linkedTwice refusal (Command.run (World.amid .none)
        (Chronicle.reading World.now) (fun _ => none) ["/srv/keys/certs", "--ensure-empty"]
        (.start linkedTwice)) := by
  have hq : linkedTwice.Quiet := by
    intro e he
    cases he
  have ha : (Path.ofText "/srv/keys/certs").isAbsolute = true := by decide
  have hdots : ".." ∉ (Path.ofText "/srv/keys/certs").parts := by decide
  have hl : linkedTwice.files.locate true (.ofText "/srv/keys/certs") =
      .ok (.ofText "/etc/ssl/certs") := by decide +kernel
  have hthere : linkedTwice.files.formAt? (.ofText "/etc/ssl/certs") ≠ none := by decide +kernel
  have hbytes : ∀ loc ∈ linkedTwice.files.trail true (.ofText "/srv/keys/certs"),
      loc.path.text.utf8ByteSize ≤ FileSystem.maxPathBytes := by decide +kernel
  have hshort : linkedTwice.files.ShowsLinks (.ofText "/srv/keys/certs") :=
    fun loc hm _ _ => hbytes loc hm
  have hclean : ∀ loc ∈ linkedTwice.files.trail true (.ofText "/srv/keys/certs"),
      '\x00' ∉ loc.path.text.toList := by decide +kernel
  have hargs : Command.Request.ofArguments (Command.Defaults.ofVariables fun _ => none)
      ["/srv/keys/certs", "--ensure-empty"] =
        .perform ⟨"/srv/keys/certs", false, false, true, "INFO"⟩ := by decide +kernel
  have hguarded := isGuarded_path.2 (show (Location.ofText "/etc/ssl/certs").IsProtected by decide)
  refine ⟨hq, ha, hdots, hl, hthere, hshort, hclean, ?_⟩
  obtain ⟨answer, w', -, -, hanswers, -⟩ := check_answers hq ha hdots hl hthere hshort hclean
  obtain ⟨refusal, hrefused⟩ := hanswers.refused_iff.2 (Or.inr hguarded)
  exact ⟨refusal, hanswers.rejected refusal hrefused _ _ _ hargs rfl _⟩

/-- A link whose target holds a null byte, with a file at the target. -/
def garbledLink : World :=
  .make [.leaf (.ofText "/x\x00y") .file 0, .leaf (.ofText "/a") (.link "x\x00y") 0] "/" none []
    (.ofList [])

/-- A null byte that only a link's target brings in keeps the check from answering. -/
theorem check_garbled :
    garbledLink.Quiet ∧ (Path.ofText "/a").isAbsolute = true ∧ ".." ∉ (Path.ofText "/a").parts ∧
      '\x00' ∉ "/a".toList ∧
      garbledLink.files.locate true (.ofText "/a") = .ok (.ofText "/x\x00y") ∧
      garbledLink.files.formAt? (.ofText "/x\x00y") = some .file ∧
      (∀ loc ∈ garbledLink.files.trail true (.ofText "/a"),
        loc.path.text.utf8ByteSize ≤ FileSystem.maxPathBytes) ∧
      ¬ IsGuarded (Path.ofText "/a").normalize.text ∧
      ¬ IsGuarded (Location.ofText "/x\x00y").path.text ∧
      Ends (check World.environment "/a") garbledLink (fun _ _ => False)
        fun f _ => f = .nullByte := by
  refine ⟨?_, ?_⟩
  · intro e he
    cases he
  · decide +kernel

end Target

end TreeRemoval
