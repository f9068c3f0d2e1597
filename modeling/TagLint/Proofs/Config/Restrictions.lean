import TagLint.Proofs.CommandLine.Options
import TagLint.Proofs.Config.Acceptance
import TagLint.Proofs.Rules.Descendants
import TagLint.Proofs.Toml.Names
/-!
# Every element can be restricted

Names of elements and names in settings are read by rules of their own. Whatever is a name in markup is one in the
settings: the command line, the configuration file and the environment can each name any element of an accepted text,
and the text is refused if that element is not its root (`Config.resolve_restricts`).
-/

namespace TagLint.Config

/-! ## Names in settings -/

theorem isElementName_of_isName {name : String} (h : IsName name.toList) : IsElementName name := by
  refine ⟨?_, fun c hc => ⟨not_isBlank_of_isNameChar (h.all_isNameChar c hc), ?_⟩⟩
  · rintro rfl
    obtain ⟨c, rest, hempty, -⟩ := h
    cases hempty
  · intro hmark
    have hnone : ['<', '>', '/', '=', '"', '\''].all fun d => !isNameChar d := rfl
    have hmark := List.all_eq_true.1 hnone c hmark
    rw [h.all_isNameChar c hc] at hmark
    cases hmark

theorem head?_of_isName {name : List Char} (h : IsName name) : name.head? ≠ some '-' := by
  obtain ⟨c, rest, rfl, hc, -⟩ := h
  intro hhead
  obtain rfl := Option.some.inj hhead
  cases hc

/-- Blank characters around a name are all that trimming takes off. -/
theorem trimsTo_of_isName {front name back : List Char} (h : IsName name) (hfront : ∀ c ∈ front, isBlank c)
    (hback : ∀ c ∈ back, isBlank c) : TrimsTo (front ++ name ++ back) name :=
  ⟨front, back, rfl, hfront, hback,
    fun c hc => not_isBlank_of_isNameChar (h.all_isNameChar c (List.mem_of_mem_head? hc)),
    fun c hc => not_isBlank_of_isNameChar (h.all_isNameChar c (List.mem_of_mem_getLast? hc))⟩

/-- Between commas stands the name of an element, with or without blank characters around it. -/
def IsEntry (piece : List Char) : Prop := ',' ∉ piece ∧ ∃ name : String, TrimsTo piece name.toList ∧ IsElementName name

theorem isEntry_of_isName {front back : List Char} {name : String} (h : IsName name.toList)
    (hfront : ∀ c ∈ front, isBlank c) (hback : ∀ c ∈ back, isBlank c) : IsEntry (front ++ name.toList ++ back) := by
  have htrims := trimsTo_of_isName h hfront hback
  exact ⟨htrims.notMem (by decide) (h.notMem (by decide)), name, htrims, isElementName_of_isName h⟩

theorem IsEntry.isElementName {piece : List Char} (h : IsEntry piece) : IsElementName (.ofList (trimChars piece)) := by
  obtain ⟨-, name, htrims, hname⟩ := h
  rwa [htrims.trimChars_eq, String.ofList_toList]

/-- Entries between commas are a list of the names in them. -/
theorem lists_of_isEntry {pieces : List (List Char)} (hne : pieces ≠ []) (h : ∀ piece ∈ pieces, IsEntry piece) :
    Lists (.ofList ([','].intercalate pieces)) (pieces.map fun piece => .ofList (trimChars piece)) := by
  refine .entries hne String.toList_ofList (fun piece hp => (h piece hp).1) ?_
  rw [List.forall₂_map_right_iff, List.forall₂_same]
  intro piece hp
  refine ⟨?_, (h piece hp).isElementName.1⟩
  rw [String.toList_ofList]
  exact trimsTo_trimChars piece

/-! ## One more name -/

/-- Settings with one name more among the elements that may only be the root: on the command line, in the file, or as
an entry of the variable, with any blank characters around it. -/
inductive Restricts (name : String) (a : CommandLine.Arguments) (env : Environment) (fs : FileSystem) :
    CommandLine.Arguments → Environment → FileSystem → Prop
  | commandLine {before after : List String} : a.rootOnly = before ++ after →
      Restricts name a env fs { a with rootOnly := before ++ name :: after } env fs
  | file {fs' : FileSystem} {settings : FileSettings} {before after : List String} :
      GivesSettings fs (file? a env fs) settings → settings.rootOnly = before ++ after →
      GivesSettings fs' (file? a env fs') { settings with rootOnly := before ++ name :: after } →
        Restricts name a env fs a env fs'
  | environment {before after : List (List Char)} {front back : List Char} : (∀ piece ∈ before ++ after, IsEntry piece) →
      (∀ c ∈ front, isBlank c) → (∀ c ∈ back, isBlank c) →
        Restricts name a env fs a
          { env with
            rootOnly := some (.ofList ([','].intercalate (before ++ (front ++ name.toList ++ back) :: after))) } fs

variable {a a' : CommandLine.Arguments} {env env' : Environment} {fs fs' : FileSystem} {s : Sources} {name : String}

/-- Which extensions count is told by the settings for extensions alone. -/
theorem GivesExtensions.congr {settings settings' : FileSettings} {given : List String}
    (h : GivesExtensions a settings given) (ha : a'.extensions = a.extensions)
    (hs : settings'.extensions = settings.extensions) : GivesExtensions a' settings' given := by
  rw [givesExtensions_iff] at h ⊢
  rw [h, ha, hs]

/-- One element more can be named wherever elements are named. -/
theorem Accepts.restricts (h : Accepts a env fs s) (hname : IsName name.toList)
    (hr : Restricts name a env fs a' env' fs') : ∃ s', Accepts a' env' fs' s' ∧ name ∈ s'.elements a' := by
  have helement := isElementName_of_isName hname
  obtain ⟨given, hgives, hfilled⟩ := h.extensions
  have helements := h.elements
  simp only [Sources.elements, List.forall_mem_append] at helements
  cases hr with
  | @commandLine before after hgiven =>
    rw [hgiven, List.forall_mem_append] at helements
    obtain ⟨hsources, hbefore, hafter⟩ := helements
    refine ⟨s, { h with extensions := ⟨given, hgives.congr rfl rfl, hfilled⟩, elements := ?_ }, ?_⟩
    · simp only [Sources.elements, List.forall_mem_append, List.forall_mem_cons]
      exact ⟨hsources, hbefore, helement, hafter⟩
    · exact List.mem_append_right _ (List.mem_append_right _ List.mem_cons_self)
  | @file _ settings before after hfile hgiven hfile' =>
    obtain rfl := hfile.unique h.file
    rw [hgiven, List.forall_mem_append] at helements
    obtain ⟨⟨⟨hbefore, hafter⟩, hvariable⟩, hwords⟩ := helements
    refine ⟨⟨{ s.settings with rootOnly := before ++ name :: after }, s.rootOnly, s.expectedFailures⟩,
      { h with file := hfile', extensions := ⟨given, hgives.congr rfl rfl, hfilled⟩, elements := ?_ }, ?_⟩
    · simp only [Sources.elements, List.forall_mem_append, List.forall_mem_cons]
      exact ⟨⟨⟨hbefore, helement, hafter⟩, hvariable⟩, hwords⟩
    · exact List.mem_append_left _ (List.mem_append_left _ (List.mem_append_right _ List.mem_cons_self))
  | @environment before after front back hpieces hfront hback =>
    obtain ⟨⟨hsettings, -⟩, hwords⟩ := helements
    have hentry := isEntry_of_isName hname hfront hback
    have hall : ∀ piece ∈ before ++ (front ++ name.toList ++ back) :: after, IsEntry piece := by
      simp only [List.forall_mem_append, List.forall_mem_cons] at hpieces ⊢
      exact ⟨hpieces.1, hentry, hpieces.2⟩
    have htrimmed : String.ofList (trimChars (front ++ name.toList ++ back)) = name := by
      rw [(trimsTo_of_isName hname hfront hback).trimChars_eq, String.ofList_toList]
    refine ⟨⟨s.settings, List.map _ _, s.expectedFailures⟩, {
      file := h.file
      extensions := h.extensions
      rootOnly := .inr ⟨_, rfl, lists_of_isEntry (by simp) hall⟩
      expectedFailures := h.expectedFailures
      elements := ?_
      switch := h.switch }, ?_⟩
    · rw [Sources.elements, List.forall_mem_append, List.forall_mem_append]
      exact ⟨⟨hsettings, List.forall_mem_map.2 fun piece hp => (hall piece hp).isElementName⟩, hwords⟩
    · apply List.mem_append_left
      apply List.mem_append_right
      exact List.mem_map.2 ⟨_, List.mem_append_right _ List.mem_cons_self, htrimmed⟩

/-- What the sources hold is determined by what there is to read. -/
theorem Sources.ReadFrom.unique {s' : Sources} (h : s.ReadFrom a env fs) (h' : s'.ReadFrom a env fs) : s = s' := by
  obtain ⟨settings, names, entries⟩ := s
  obtain ⟨settings', names', entries'⟩ := s'
  obtain rfl := h.settings.unique h'.settings
  obtain rfl := Except.ok.inj (h.rootOnly.symm.trans h'.rootOnly)
  obtain rfl := Except.ok.inj (h.expectedFailures.symm.trans h'.expectedFailures)
  rfl

theorem Accepts.exists_resolved (h : Accepts a env fs s) : ∃ c, resolve a env fs = .ok c ∧ c.Resolved a env fs s := by
  obtain ⟨c, hc⟩ := exists_resolve_iff.2 ⟨s, h⟩
  obtain ⟨s', hresolved⟩ := resolved_of_resolve hc
  have hread : s.ReadFrom a env fs :=
    ⟨h.file, variableList_eq_ok_iff.2 h.rootOnly, variableList_eq_ok_iff.2 h.expectedFailures⟩
  obtain rfl := hresolved.read.unique hread
  exact ⟨c, hc, hresolved⟩

theorem Resolved.mem_rootOnly_iff {c : Config} (h : c.Resolved a env fs s) : name ∈ c.rootOnly ↔ name ∈ s.elements a := by
  simpa using h.rootOnly.mem_map_iff name

/-! ## Main theorem -/

/-- A configuration refuses a text for a name: it has the name, the rule for the name as it stands can be registered with
all others, and the text, though well-formed, is not valid, as that rule has findings in it. -/
structure Refuses (c : Config) (name source : String) : Prop where
  named : name ∈ c.rootOnly
  registered : ∃ registry, (Registry.rootOnly c.rootOnly).2 = .ok registry ∧ RootOnly.rule name ∈ registry.rules ∧
    s!"root-only:{name}" ∈ registry.names ∧ (validate source registry).isValid = false ∧
    (validate source registry).wellFormedness = [] ∧
    ∃ r ∈ (validate source registry).ruleResults, r.rule = s!"root-only:{name}" ∧ r.diagnostics ≠ []

theorem Resolved.refuses {c : Config} {source : String} {root e : Element} {address : List Nat} {passed : List Element}
    (hc : c.Resolved a env fs s) (h : checkWellFormed (tokenize source) = .ok root)
    (he : root.Leads address passed e) (hne : address ≠ []) (hname : e.name ∈ s.elements a) : c.Refuses e.name source := by
  have hnamed := hc.mem_rootOnly_iff.2 hname
  have hdistinct : c.rootOnly.Nodup := by simpa using hc.rootOnly.nodup
  obtain ⟨registry, hregistry, hrules, hnames⟩ := Registry.rootOnly_of_nodup hdistinct
  have hrule : RootOnly.rule e.name ∈ registry.rules := hrules ▸ List.mem_map_of_mem hnamed
  obtain ⟨hwell, hresult⟩ := he.exists_result h hne hrule
  have hlisted : s!"root-only:{e.name}" ∈ registry.names := hnames ▸ List.mem_map.2 ⟨_, hnamed, rfl⟩
  exact ⟨hnamed, registry, congrArg Prod.snd hregistry, hrule, hlisted, he.not_isValid h hne hrule, hwell, hresult⟩

/-- The name of each element below the root of an accepted text can be added to the settings of a run, from each of
their sources: the run is still configured, and refuses the text by the rule for the name. On a command line the name
can stand behind the other words, and in a file between the other names of the list. -/
theorem resolve_restricts {source : String} {root e : Element} {address : List Nat} {passed : List Element}
    (h : checkWellFormed (tokenize source) = .ok root) (he : root.Leads address passed e) (hne : address ≠ []) :
    (∀ a env fs c a' env' fs', resolve a env fs = .ok c → Restricts e.name a env fs a' env' fs' →
      ∃ c', resolve a' env' fs' = .ok c' ∧ c'.Refuses e.name source) ∧
    (∀ words a, CommandLine.Arguments.parse words = .ok a → "--" ∉ words → ∀ more,
      more = ["--root-only=" ++ e.name] ∨ more = ["--root-only", e.name] →
        CommandLine.Arguments.parse (words ++ more) = .ok { a with rootOnly := a.rootOnly ++ [e.name] }) ∧
    ∀ before after : List (List Char), (∀ name ∈ before ++ after, IsName name) →
      FileSettings.parse (rootOnlyLine (before ++ e.name.toList :: after)) =
        some { FileSettings.default with
          rootOnly := before.map String.ofList ++ e.name :: after.map String.ofList } := by
  have hname := he.isName h
  refine ⟨fun a env fs c a' env' fs' hc hr => ?_, fun words a hwords hplain more hmore => ?_,
    fun before after hnames => ?_⟩
  · obtain ⟨s, hs⟩ := exists_resolve_iff.1 ⟨c, hc⟩
    obtain ⟨s', hs', hmem⟩ := hs.restricts hname hr
    obtain ⟨c', hc', hresolved⟩ := hs'.exists_resolved
    exact ⟨c', hc', hresolved.refuses h he hne hmem⟩
  · have hput : CommandLine.State.put a .rootOnly e.name = .ok { a with rootOnly := a.rootOnly ++ [e.name] } := rfl
    obtain ⟨hassigned, hawaited⟩ :=
      CommandLine.Arguments.parse_concat hwords hplain CommandLine.Parameter.takesMany_rootOnly hput
    rcases hmore with rfl | rfl
    · exact hassigned
    · exact hawaited (head?_of_isName hname)
  · have hall : ∀ name ∈ before ++ e.name.toList :: after, IsName name := by
      rw [List.forall_mem_append] at hnames
      rw [List.forall_mem_append, List.forall_mem_cons]
      exact ⟨hnames.1, hname, hnames.2⟩
    rw [FileSettings.parse_rootOnlyLine hall, List.map_append, List.map_cons, String.ofList_toList]

/-- Next to another name, and between blank characters of two kinds. -/
theorem resolve_restricts_among_entries :
    let env : Environment := ⟨none, none, none, some "x ,\u3000ö ", none, none⟩
    ∃ c, resolve CommandLine.Arguments.default env (.ofAnswers [] []) = .ok c ∧ c.Refuses "ö" "<a><ö/></a>" := by
  intro env
  have hsource : (checkWellFormed (tokenize "<a><ö/></a>")).toOption.map (fun root => root.children.map Element.name) =
      some ["ö"] := by decide +kernel
  cases h : checkWellFormed (tokenize "<a><ö/></a>") with
  | error ds => rw [h] at hsource; cases hsource
  | ok root =>
    rw [h] at hsource
    obtain ⟨e, rest, hchildren, hname, -⟩ := List.map_eq_cons_iff.1 (Option.some.inj hsource)
    have hleads : root.Leads [0] [root] e := .down (by rw [hchildren]; rfl) (.here e)
    have hbase : ∃ c, resolve CommandLine.Arguments.default { env with rootOnly := none } (.ofAnswers [] []) = .ok c :=
      ⟨_, rfl⟩
    obtain ⟨base, hbase⟩ := hbase
    have hother : IsEntry ([] ++ "x".toList ++ [' ']) :=
      isEntry_of_isName ⟨'x', [], rfl, rfl, List.forall_mem_nil _⟩ (List.forall_mem_nil _)
        (List.forall_mem_singleton.2 rfl)
    have hadded : Restricts e.name CommandLine.Arguments.default { env with rootOnly := none } (.ofAnswers [] [])
        CommandLine.Arguments.default env (.ofAnswers [] []) := by
      have henv : env = { env with
          rootOnly := some (.ofList ([','].intercalate ([[] ++ "x".toList ++ [' ']] ++ (['\u3000'] ++ "ö".toList ++ [' ']) :: []))) } := by
        decide
      rw [henv, hname]
      exact .environment (List.forall_mem_singleton.2 hother) (List.forall_mem_singleton.2 rfl)
        (List.forall_mem_singleton.2 rfl)
    obtain ⟨c, hc, hrefuses⟩ := (resolve_restricts h hleads (List.cons_ne_nil _ _)).1 _ _ _ _ _ _ _ hbase hadded
    exact ⟨c, hc, hname ▸ hrefuses⟩

end TagLint.Config
