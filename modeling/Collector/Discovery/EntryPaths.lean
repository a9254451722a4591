import Collector.Lib.Regex
import Collector.Value

/-!
# The files of a configuration directory

`LoadFS` of `internal/confmapprovider/discovery/config.go` takes the kind of a file from its path. The expressions leave
room for the root of the directory, which the paths of `fs.WalkDir` do not have.
-/

namespace Collector.Discovery

open Lib Lib.Regex List Option

variable {f : Str}

/-! ## The expressions -/

section
variable (windows : Bool)

def isSep (c : Char) : Bool := c = '/' || (windows && c = '\\')

def yamlExtension : Pattern Char := seq (lit ['.']) (alt (lit ['y', 'a', 'm', 'l']) (lit ['y', 'm', 'l']))

def configDirRootRegex : Pattern Char := star fun c => !isSep windows c

def rootEntryRegex (name : Str) : Pattern Char :=
  seq (configDirRootRegex windows) (seq (opt (one (isSep windows))) (seq (lit name) yamlExtension))

def serviceEntryRegex : Pattern Char := rootEntryRegex windows "service"

def discoveryPropertiesEntryRegex : Pattern Char := rootEntryRegex windows "properties.discovery"

def dirRegex (dirName : Str) : Pattern Char :=
  seq (configDirRootRegex windows) (seq (star (isSep windows)) (lit dirName))

def inDirRegex (dirName : Str) (extension : Pattern Char) : Pattern Char :=
  seq (dirRegex windows dirName) (seq (one (isSep windows)) (seq (star fun c => !isSep windows c) extension))

def entryRegex (dirName : Str) : Pattern Char := inDirRegex windows dirName yamlExtension

def discoveryEntryRegex (dirName : Str) : Pattern Char :=
  inDirRegex windows dirName (seq (lit ".discovery") yamlExtension)

def matchString (r : Pattern Char) (path : Str) : Bool := (whole r path).isSome

def exporters : Str := "exporters"
def extensions : Str := "extensions"
def processors : Str := "processors"
def receivers : Str := "receivers"

def isServiceEntryPath (path : Str) : Bool := matchString (serviceEntryRegex windows) path
def isDiscoveryPropertiesEntryPath (path : Str) : Bool := matchString (discoveryPropertiesEntryRegex windows) path
def isExporterEntryPath (path : Str) : Bool := matchString (entryRegex windows exporters) path
def isExtensionEntryPath (path : Str) : Bool := matchString (entryRegex windows extensions) path
def isDiscoveryObserverEntryPath (path : Str) : Bool := matchString (discoveryEntryRegex windows extensions) path
def isProcessorEntryPath (path : Str) : Bool := matchString (entryRegex windows processors) path
def isReceiverEntryPath (path : Str) : Bool := matchString (entryRegex windows receivers) path
def isReceiverToDiscoverEntryPath (path : Str) : Bool := matchString (discoveryEntryRegex windows receivers) path

inductive EntryType where
  | service
  | discoveryProperties
  | exporter
  | extension
  | discoveryObserver
  | processor
  | receiver
  | receiverToDiscover
  deriving DecidableEq

/-- The switch of the loader. A path that nothing matches is skipped. -/
def entryType (propertiesAlreadyLoaded : Bool) (path : Str) : Option EntryType :=
  if isServiceEntryPath windows path then some .service
  else if isDiscoveryPropertiesEntryPath windows path then
    if propertiesAlreadyLoaded then none else some .discoveryProperties
  else if isExporterEntryPath windows path then some .exporter
  else if isExtensionEntryPath windows path then
    if isDiscoveryObserverEntryPath windows path then some .discoveryObserver else some .extension
  else if isProcessorEntryPath windows path then some .processor
  else if isReceiverEntryPath windows path then
    if isReceiverToDiscoverEntryPath windows path then some .receiverToDiscover else some .receiver
  else none

end

/-! ## Paths -/

def relPath : List Str → Str
  | [] => []
  | [e] => e
  | e :: f :: es => e ++ '/' :: relPath (f :: es)

/-- The names of a path, none of them empty or with a separator. -/
def Elements (windows : Bool) (elems : List Str) : Prop :=
  elems ≠ [] ∧ ∀ e ∈ elems, e ≠ [] ∧ ∀ c ∈ e, isSep windows c = false

section
variable {windows : Bool}

theorem splitOnP_relPath {elems : List Str} (h : Elements windows elems) :
    (relPath elems).splitOnP (isSep windows) = elems := by
  obtain ⟨hne, hf⟩ := h
  induction elems with
  | nil => exact absurd rfl hne
  | cons e es ih =>
    have he := (hf e (.head _)).2
    cases es with
    | nil => exact splitOnP_eq_singleton he
    | cons f es =>
      have hsep : isSep windows '/' = true := by simp [isSep]
      rw [relPath, splitOnP_append_cons_of_forall_mem he _ hsep, ih (cons_ne_nil f es) fun g hg => hf g (.tail _ hg)]

/-! ## What the expressions match -/

theorem words_yamlExtension : Words yamlExtension [".yaml", ".yml"] :=
  (Words.lit ['.']).seq ((Words.lit ['y', 'a', 'm', 'l']).alt (Words.lit ['y', 'm', 'l']))

theorem words_discoveryExtension :
    Words (seq (lit ".discovery") yamlExtension) [".discovery.yaml", ".discovery.yml"] :=
  (Words.lit ".discovery").seq words_yamlExtension

def Free (windows : Bool) (s : Str) : Prop := ∀ c ∈ s, isSep windows c = false

variable {s : Str}

theorem not_isSep_iff : (∀ c ∈ s, (!isSep windows c) = true) ↔ Free windows s := by
  simp [Free]

theorem free_of_any (h : s.any (isSep windows) = false) : Free windows s :=
  fun c hc => Bool.eq_false_iff.mpr (any_eq_false.mp h c hc)

theorem free_texts {l : List Str} (h : (l.any fun s => s.any (isSep windows)) = false) : ∀ s ∈ l, Free windows s :=
  fun s hs => free_of_any (Bool.eq_false_iff.mpr (any_eq_false.mp h s hs))

theorem elements_of_texts {elems : List Str} (hne : elems ≠ []) (hnil : [] ∉ elems)
    (h : (elems.any fun s => s.any (isSep windows)) = false) : Elements windows elems :=
  ⟨hne, fun e he => ⟨fun heq => hnil (heq ▸ he), free_texts h e he⟩⟩

theorem Free.append {t : Str} (hs : Free windows s) (ht : Free windows t) : Free windows (s ++ t) :=
  fun c hc => (mem_append.mp hc).elim (hs c) (ht c)

variable {name : Str} {files : List Str}

theorem matchString_rootEntry {path : Str} (hfi : Words (seq (lit name) yamlExtension) files) :
    matchString (rootEntryRegex windows name) path = true ↔
      ∃ p, Free windows p ∧ ∃ f ∈ files, path = p ++ f ∨ ∃ c, isSep windows c = true ∧ path = p ++ c :: f := by
  unfold matchString rootEntryRegex configDirRootRegex
  rw [((spells_star _).seq ((spells_one _).opt.seq hfi.spells)).whole]
  constructor
  · rintro ⟨p, v, hp, ⟨_, f, rfl | ⟨c, hc, rfl⟩, hf, rfl⟩, rfl⟩
    · exact ⟨p, not_isSep_iff.mp hp, v, hf, .inl rfl⟩
    · exact ⟨p, not_isSep_iff.mp hp, f, hf, .inr ⟨c, hc, rfl⟩⟩
  · rintro ⟨p, hp, f, hf, rfl | ⟨c, hc, rfl⟩⟩
    · exact ⟨p, f, not_isSep_iff.mpr hp, ⟨[], f, .inl rfl, hf, rfl⟩, rfl⟩
    · exact ⟨p, c :: f, not_isSep_iff.mpr hp, ⟨[c], f, .inr ⟨c, hc, rfl⟩, hf, rfl⟩, rfl⟩

variable {dirName : Str} {extension : Pattern Char} {exts : List Str}

theorem matchString_inDir {path : Str} (hex : Words extension exts) :
    matchString (inDirRegex windows dirName extension) path = true ↔
      ∃ p ss c x, Free windows p ∧ (∀ c ∈ ss, isSep windows c = true) ∧ isSep windows c = true ∧ Free windows x ∧
        ∃ e ∈ exts, path = p ++ (ss ++ (dirName ++ c :: (x ++ e))) := by
  have hdir := (spells_star fun c => !isSep windows c).seq
    ((spells_star (isSep windows)).seq (Words.lit dirName).spells)
  have hfi := (spells_one (isSep windows)).seq ((spells_star fun c => !isSep windows c).seq hex.spells)
  unfold matchString inDirRegex dirRegex configDirRootRegex
  rw [(hdir.seq hfi).whole]
  simp only [mem_singleton]
  constructor
  · rintro ⟨_, _, ⟨p, _, hp, ⟨ss, _, hss, rfl, rfl⟩, rfl⟩, ⟨_, _, ⟨c, hc, rfl⟩, ⟨x, e, hx, he, rfl⟩, rfl⟩, rfl⟩
    exact ⟨p, ss, c, x, not_isSep_iff.mp hp, hss, hc, not_isSep_iff.mp hx, e, he, by simp⟩
  · rintro ⟨p, ss, c, x, hp, hss, hc, hx, e, he, rfl⟩
    refine ⟨p ++ (ss ++ dirName), c :: (x ++ e), ⟨p, _, not_isSep_iff.mpr hp, ⟨ss, _, hss, rfl, rfl⟩, rfl⟩,
      ⟨[c], x ++ e, ⟨c, hc, rfl⟩, ⟨x, e, not_isSep_iff.mpr hx, he, rfl⟩, rfl⟩, by simp⟩

/-! ## The elements of matching paths -/

def RootEntry (files : List Str) (elems : List Str) : Prop :=
  ∃ p, ∃ f ∈ files, elems = [p ++ f] ∨ elems = [p, f]

def DirEntry (dirName : Str) (exts : List Str) (elems : List Str) : Prop :=
  ∃ p x, ∃ e ∈ exts, elems = [p ++ dirName, x ++ e] ∨ elems = [p, dirName, x ++ e]

variable {elems : List Str} (helems : Elements windows elems)
include helems

theorem Elements.free {e : Str} (he : e ∈ elems) : Free windows e := (helems.2 e he).2

theorem matchString_rootEntry_relPath
    (hfi : Words (seq (lit name) yamlExtension) files) (hfr : ∀ f ∈ files, Free windows f) :
    matchString (rootEntryRegex windows name) (relPath elems) = true ↔ RootEntry files elems := by
  rw [matchString_rootEntry hfi]
  constructor
  · rintro ⟨p, hp, f, hf, hpa⟩
    have hs := splitOnP_relPath helems
    refine ⟨p, f, hf, ?_⟩
    rcases hpa with hpa | ⟨c, hc, hpa⟩
    · rw [hpa, splitOnP_eq_singleton (hp.append (hfr f hf))] at hs
      exact .inl hs.symm
    · rw [hpa, splitOnP_append_cons_of_forall_mem hp c hc, splitOnP_eq_singleton (hfr f hf)] at hs
      exact .inr hs.symm
  · rintro ⟨p, f, hf, rfl | rfl⟩
    · have hp : Free windows p := fun c hc => helems.free (.head _) c (mem_append_left f hc)
      exact ⟨p, hp, f, hf, .inl rfl⟩
    · exact ⟨p, helems.free (.head _), f, hf, .inr ⟨'/', by simp [isSep], rfl⟩⟩

theorem matchString_inDir_relPath
    (hex : Words extension exts) (hdir : Free windows dirName) (hfr : ∀ e ∈ exts, Free windows e) :
    matchString (inDirRegex windows dirName extension) (relPath elems) = true ↔ DirEntry dirName exts elems := by
  have hsl : isSep windows '/' = true := by simp [isSep]
  rw [matchString_inDir hex]
  constructor
  · rintro ⟨p, ss, c, x, hp, hss, hc, hx, e, he, hpa⟩
    have hs := splitOnP_relPath helems
    have hf := splitOnP_eq_singleton (hx.append (hfr e he))
    refine ⟨p, x, e, he, ?_⟩
    rw [hpa] at hs
    cases ss with
    | nil =>
      rw [nil_append, ← append_assoc, splitOnP_append_cons_of_forall_mem (hp.append hdir) c hc, hf] at hs
      exact .inl hs.symm
    | cons s ss =>
      rw [cons_append, splitOnP_append_cons_of_forall_mem hp s (hss s (.head _))] at hs
      cases ss with
      | nil =>
        rw [nil_append, splitOnP_append_cons_of_forall_mem hdir c hc, hf] at hs
        exact .inr hs.symm
      | cons s' ss =>
        -- two separators in a row would have nothing between them
        have hem : ([] ++ s' :: (ss ++ (dirName ++ c :: (x ++ e)))).splitOnP (isSep windows) =
            [] :: (ss ++ (dirName ++ c :: (x ++ e))).splitOnP (isSep windows) :=
          splitOnP_append_cons_of_forall_mem (by simp) s' (hss s' (.tail _ (.head _))) _
        rw [cons_append, ← nil_append (s' :: _), hem] at hs
        have hmem : [] ∈ elems := by simp [← hs]
        exact absurd rfl (helems.2 [] hmem).1
  · rintro ⟨p, x, e, he, rfl | rfl⟩
    · have hp : Free windows p := fun c hc => helems.free (.head _) c (mem_append_left dirName hc)
      have hx : Free windows x := fun c hc => helems.free (.tail _ (.head _)) c (mem_append_left e hc)
      exact ⟨p, [], '/', x, hp, by simp, hsl, hx, e, he, by simp [relPath]⟩
    · have hx : Free windows x := fun c hc => helems.free (.tail _ (.tail _ (.head _))) c (mem_append_left e hc)
      exact ⟨p, ['/'], '/', x, helems.free (.head _), by simpa using hsl, hsl, hx, e, he, by simp [relPath]⟩

end

/-! ## Places -/

def serviceFiles : List Str := ["service.yaml", "service.yml"]

def propertiesFiles : List Str := ["properties.discovery.yaml", "properties.discovery.yml"]

def yamlExts : List Str := [".yaml", ".yml"]

def discoveryExts : List Str := [".discovery.yaml", ".discovery.yml"]

def InDir (dirName : Str) (file : Str → Prop) (elems : List Str) : Prop := ∃ f, file f ∧ elems = [dirName, f]

def EndsIn (exts : List Str) (f : Str) : Prop := ∃ x, ∃ e ∈ exts, f = x ++ e

/-- Where a file of each type is expected. -/
def Placement : EntryType → List Str → Prop
  | .service, elems => ∃ f ∈ serviceFiles, elems = [f]
  | .discoveryProperties, elems => ∃ f ∈ propertiesFiles, elems = [f]
  | .exporter, elems => InDir exporters (EndsIn yamlExts) elems
  | .extension, elems => InDir extensions (fun f => EndsIn yamlExts f ∧ ¬EndsIn discoveryExts f) elems
  | .discoveryObserver, elems => InDir extensions (EndsIn discoveryExts) elems
  | .processor, elems => InDir processors (EndsIn yamlExts) elems
  | .receiver, elems => InDir receivers (fun f => EndsIn yamlExts f ∧ ¬EndsIn discoveryExts f) elems
  | .receiverToDiscover, elems => InDir receivers (EndsIn discoveryExts) elems

/-- Each file is loaded as its place says. -/
structure LoadedByPlace (windows propertiesAlreadyLoaded : Bool) (elems : List Str) : Prop where
  service : entryType windows propertiesAlreadyLoaded (relPath elems) = some .service → Placement .service elems
  properties : entryType windows propertiesAlreadyLoaded (relPath elems) = some .discoveryProperties →
    Placement .discoveryProperties elems
  component : ∀ t, t ≠ .service → t ≠ .discoveryProperties →
    (entryType windows propertiesAlreadyLoaded (relPath elems) = some t ↔ Placement t elems)

inductive Dir where
  | exporters
  | extensions
  | processors
  | receivers

variable {d : Dir}

def Dir.name : Dir → Str
  | .exporters => Discovery.exporters
  | .extensions => Discovery.extensions
  | .processors => Discovery.processors
  | .receivers => Discovery.receivers

/-- The path is in none of the other places that the expressions match. -/
structure Placed (propertiesAlreadyLoaded : Bool) (elems : List Str) : Prop where
  service : ∀ p, ∀ f ∈ serviceFiles, (elems = [p ++ f] → p = []) ∧ elems ≠ [p, f]
  properties : propertiesAlreadyLoaded = false →
    ∀ p, ∀ f ∈ propertiesFiles, (elems = [p ++ f] → p = []) ∧ elems ≠ [p, f]
  propertiesDir : ∀ d : Dir, ∀ f ∈ propertiesFiles, elems ≠ [d.name, f]
  dir : ∀ d : Dir, ∀ p f, EndsIn yamlExts f → f ∉ propertiesFiles → elems = [p ++ d.name, f] → p = []
  nested : ∀ d : Dir, ∀ p f, EndsIn yamlExts f → elems ≠ [p, d.name, f]

/-! ## The switch -/

def Dir.entryType : Dir → (discovery : Bool) → EntryType
  | .exporters, _ => .exporter
  | .extensions, discovery => if discovery then .discoveryObserver else .extension
  | .processors, _ => .processor
  | .receivers, discovery => if discovery then .receiverToDiscover else .receiver

def Dir.entryTypeOf (windows : Bool) (d : Dir) (path : Str) : EntryType :=
  d.entryType (matchString (discoveryEntryRegex windows d.name) path)

def Dir.all : List Dir := [.exporters, .extensions, .processors, .receivers]

theorem entryType_eq (windows propertiesAlreadyLoaded : Bool) (path : Str) :
    entryType windows propertiesAlreadyLoaded path =
      if isServiceEntryPath windows path then some .service
      else if isDiscoveryPropertiesEntryPath windows path then
        if propertiesAlreadyLoaded then none else some .discoveryProperties
      else (Dir.all.find? fun d => matchString (entryRegex windows d.name) path).map fun d =>
        d.entryTypeOf windows path := by
  have hfirst (p : Dir → Bool) (g : Dir → EntryType) (d : Dir) (ds : List Dir) :
      ((d :: ds).find? p).map g = if p d then some (g d) else (ds.find? p).map g := by
    rw [find?_cons]
    cases p d <;> rfl
  rw [Dir.all, hfirst, hfirst, hfirst, hfirst, find?_nil, map_none]
  simp only [Dir.entryTypeOf, Dir.entryType, apply_ite some]
  rfl

/-! ## Files and directories -/

theorem suffixFree_rootFiles :
    ∀ f ∈ serviceFiles ++ propertiesFiles, ∀ f' ∈ serviceFiles ++ propertiesFiles, f <:+ f' → f = f' := by
  decide

theorem eq_nil_of_suffixFree {p f' : Str} (hf : f ∈ serviceFiles ++ propertiesFiles)
    (hf' : f' ∈ serviceFiles ++ propertiesFiles) (heq : p ++ f = f') : p = [] := by
  have hff := suffixFree_rootFiles f hf f' hf' ⟨p, heq⟩
  rw [← hff] at heq
  simpa using heq

variable {d' : Dir}

theorem Dir.eq_of_suffix (h : d.name <:+ d'.name) : d = d' := by
  cases d <;> cases d' <;> first | rfl | exact absurd h (by decide)

theorem Dir.eq_of_append {p p' : Str} (h : p ++ d.name = p' ++ d'.name) : d = d' := by
  rcases suffix_or_suffix_of_suffix ⟨p, h⟩ (suffix_append p' d'.name) with hs | hs
  · exact Dir.eq_of_suffix hs
  · exact (Dir.eq_of_suffix hs).symm

theorem Dir.eq_of_dirEntry {exts : List Str} {elems : List Str} (h : DirEntry d.name exts elems)
    (h' : DirEntry d'.name exts elems) : d = d' := by
  obtain ⟨p, x, e, -, rfl | rfl⟩ := h
  · obtain ⟨p', x', e', -, heq | heq⟩ := h'
    · exact Dir.eq_of_append (cons.inj heq).1
    · simp at heq
  · obtain ⟨p', x', e', -, heq | heq⟩ := h'
    · simp at heq
    · have hn : d.name = d'.name := (cons.inj (cons.inj heq).2).1
      exact Dir.eq_of_suffix ⟨[], hn⟩

theorem endsIn_yaml_of_discovery (h : EndsIn discoveryExts f) : EndsIn yamlExts f := by
  obtain ⟨x, e, he, rfl⟩ := h
  have hs : ∀ e ∈ discoveryExts, ∃ e' ∈ yamlExts, e = ".discovery" ++ e' := by decide
  obtain ⟨e', he', rfl⟩ := hs e he
  exact ⟨x ++ ".discovery", e', he', by simp⟩

theorem endsIn_properties (h : f ∈ propertiesFiles) : EndsIn discoveryExts f := by
  have hs : ∀ f ∈ propertiesFiles, ∃ e ∈ discoveryExts, f = "properties" ++ e := by decide
  obtain ⟨e, he, rfl⟩ := hs f h
  exact ⟨_, e, he, rfl⟩

theorem Dir.free_name {windows : Bool} (d : Dir) : Free windows d.name := by
  cases windows <;> cases d <;> exact free_of_any (by decide)

theorem Dir.entryType_ne (d : Dir) (discovery : Bool) :
    d.entryType discovery ≠ .service ∧ d.entryType discovery ≠ .discoveryProperties := by
  cases d <;> cases discovery <;> decide

section
variable {loaded : Bool} {elems files : List Str}

theorem RootEntry.single (hr : RootEntry files elems)
    (h : ∀ p, ∀ f ∈ files, (elems = [p ++ f] → p = []) ∧ elems ≠ [p, f]) : ∃ f ∈ files, elems = [f] := by
  obtain ⟨p, f, hf, heq | heq⟩ := hr
  · rw [(h p f hf).1 heq] at heq
    exact ⟨f, hf, heq⟩
  · exact absurd heq (h p f hf).2

theorem single_of_rootEntry (hs : ∀ f ∈ files, f ∈ serviceFiles ++ propertiesFiles)
    (h : RootEntry files elems → ∃ f ∈ serviceFiles ++ propertiesFiles, elems = [f]) :
    ∀ p, ∀ f ∈ files, (elems = [p ++ f] → p = []) ∧ elems ≠ [p, f] := by
  intro p f hf
  constructor
  · intro heq
    obtain ⟨f', hf', heq'⟩ := h ⟨p, f, hf, .inl heq⟩
    exact eq_nil_of_suffixFree (hs f hf) hf' (cons.inj (heq.symm.trans heq')).1
  · intro heq
    obtain ⟨f', -, heq'⟩ := h ⟨p, f, hf, .inr heq⟩
    simp [heq] at heq'

section

variable (h : Placed loaded elems)
include h

theorem Placed.of_service (hs : RootEntry serviceFiles elems) : ∃ f ∈ serviceFiles, elems = [f] :=
  hs.single h.service

theorem Placed.of_properties (hl : loaded = false) (hp : RootEntry propertiesFiles elems) :
    ∃ f ∈ propertiesFiles, elems = [f] :=
  hp.single (h.properties hl)

theorem Placed.not_root (heq : elems = [d.name, f]) :
    ¬RootEntry serviceFiles elems ∧ ¬RootEntry propertiesFiles elems := by
  constructor
  · intro hs
    obtain ⟨f', -, heq'⟩ := h.of_service hs
    simp [heq] at heq'
  · rintro ⟨p, f', hf', heq' | heq'⟩
    · simp [heq] at heq'
    · have hn : d.name = p := (cons.inj (heq.symm.trans heq')).1
      rw [← hn] at heq'
      exact h.propertiesDir d f' hf' heq'

theorem Placed.of_dir (hp : ¬RootEntry propertiesFiles elems) (hd : DirEntry d.name yamlExts elems) :
    ∃ f, EndsIn yamlExts f ∧ elems = [d.name, f] := by
  obtain ⟨p, x, e, he, heq | heq⟩ := hd
  · have hno : x ++ e ∉ propertiesFiles := fun hf => hp ⟨p ++ d.name, x ++ e, hf, .inr heq⟩
    rw [h.dir d p (x ++ e) ⟨x, e, he, rfl⟩ hno heq] at heq
    exact ⟨x ++ e, ⟨x, e, he, rfl⟩, heq⟩
  · exact absurd heq (h.nested d p (x ++ e) ⟨x, e, he, rfl⟩)

end

theorem placed_inDir (hs : f ∉ serviceFiles) (hp : f ∉ propertiesFiles) : Placed loaded [d.name, f] where
  service := by
    intro p f' hf'
    refine ⟨fun heq => by simp at heq, fun heq => ?_⟩
    have hf : f = f' := (cons.inj (cons.inj heq).2).1
    exact hs (hf ▸ hf')
  properties := by
    intro _ p f' hf'
    refine ⟨fun heq => by simp at heq, fun heq => ?_⟩
    have hf : f = f' := (cons.inj (cons.inj heq).2).1
    exact hp (hf ▸ hf')
  propertiesDir := by
    intro d' f' hf' heq
    have hf : f = f' := (cons.inj (cons.inj heq).2).1
    exact hp (hf ▸ hf')
  dir := by
    intro d' p f' _ _ heq
    have hn : d.name = p ++ d'.name := (cons.inj heq).1
    rw [Dir.eq_of_suffix ⟨p, hn.symm⟩] at hn
    simpa using hn
  nested := by
    intro d' p f' _ heq
    simp at heq

end

theorem placement_component {t : EntryType} (h1 : t ≠ .service) (h2 : t ≠ .discoveryProperties) {elems : List Str} :
    Placement t elems ↔ ∃ (d : Dir) (f : Str) (discovery : Bool), EndsIn yamlExts f ∧
      (discovery = true ↔ EndsIn discoveryExts f) ∧ elems = [d.name, f] ∧ t = d.entryType discovery := by
  classical
  constructor
  · intro h
    cases t with
    | service => exact absurd rfl h1
    | discoveryProperties => exact absurd rfl h2
    | exporter =>
      obtain ⟨f, hf, rfl⟩ := h
      exact ⟨.exporters, f, decide (EndsIn discoveryExts f), hf, by simp, rfl, rfl⟩
    | processor =>
      obtain ⟨f, hf, rfl⟩ := h
      exact ⟨.processors, f, decide (EndsIn discoveryExts f), hf, by simp, rfl, rfl⟩
    | extension =>
      obtain ⟨f, ⟨hf, hno⟩, rfl⟩ := h
      exact ⟨.extensions, f, false, hf, by simpa using hno, rfl, rfl⟩
    | discoveryObserver =>
      obtain ⟨f, hf, rfl⟩ := h
      exact ⟨.extensions, f, true, endsIn_yaml_of_discovery hf, by simpa using hf, rfl, rfl⟩
    | receiver =>
      obtain ⟨f, ⟨hf, hno⟩, rfl⟩ := h
      exact ⟨.receivers, f, false, hf, by simpa using hno, rfl, rfl⟩
    | receiverToDiscover =>
      obtain ⟨f, hf, rfl⟩ := h
      exact ⟨.receivers, f, true, endsIn_yaml_of_discovery hf, by simpa using hf, rfl, rfl⟩
  · rintro ⟨d, f, discovery, hf, hd, rfl, rfl⟩
    cases d with
    | exporters | processors => exact ⟨f, hf, rfl⟩
    | extensions | receivers =>
      cases discovery with
      | true => exact ⟨f, hd.mp rfl, rfl⟩
      | false => exact ⟨f, ⟨hf, fun h => by cases hd.mpr h⟩, rfl⟩

section
variable {windows : Bool} {elems : List Str} (helems : Elements windows elems)
include helems

theorem isService_relPath : isServiceEntryPath windows (relPath elems) = true ↔ RootEntry serviceFiles elems := by
  have hw : Words (seq (lit "service") yamlExtension) serviceFiles :=
    (Words.lit "service").seq words_yamlExtension
  refine matchString_rootEntry_relPath helems hw (free_texts ?_)
  cases windows <;> decide

theorem isProperties_relPath :
    isDiscoveryPropertiesEntryPath windows (relPath elems) = true ↔ RootEntry propertiesFiles elems := by
  have hw : Words (seq (lit "properties.discovery") yamlExtension) propertiesFiles :=
    (Words.lit "properties.discovery").seq words_yamlExtension
  refine matchString_rootEntry_relPath helems hw (free_texts ?_)
  cases windows <;> decide

theorem isEntry_relPath (d : Dir) :
    matchString (entryRegex windows d.name) (relPath elems) = true ↔ DirEntry d.name yamlExts elems := by
  refine matchString_inDir_relPath helems words_yamlExtension d.free_name (free_texts ?_)
  cases windows <;> decide

theorem isDiscoveryEntry_relPath (d : Dir) :
    matchString (discoveryEntryRegex windows d.name) (relPath elems) = true ↔ DirEntry d.name discoveryExts elems := by
  refine matchString_inDir_relPath helems words_discoveryExtension d.free_name (free_texts ?_)
  cases windows <;> decide

theorem find_dir : (Dir.all.find? fun d => matchString (entryRegex windows d.name) (relPath elems)) = some d ↔
      DirEntry d.name yamlExts elems := by
  constructor
  · intro h
    have hm := find?_some h
    exact (isEntry_relPath helems d).mp hm
  · intro h
    have hmem : d ∈ Dir.all := by cases d <;> simp [Dir.all]
    have hs : (Dir.all.find? fun d => matchString (entryRegex windows d.name) (relPath elems)).isSome :=
      find?_isSome.mpr ⟨d, hmem, (isEntry_relPath helems d).mpr h⟩
    obtain ⟨d', hd'⟩ := isSome_iff_exists.mp hs
    have hm := find?_some hd'
    rw [hd', Dir.eq_of_dirEntry h ((isEntry_relPath helems d').mp hm)]

variable {t : EntryType}

theorem entryType_of_not_root {loaded : Bool} (hs : ¬RootEntry serviceFiles elems)
    (hp : ¬RootEntry propertiesFiles elems) :
    entryType windows loaded (relPath elems) = some t ↔
      ∃ d : Dir, DirEntry d.name yamlExts elems ∧ t = d.entryTypeOf windows (relPath elems) := by
  rw [entryType_eq, if_neg fun h => hs ((isService_relPath helems).mp h),
    if_neg fun h => hp ((isProperties_relPath helems).mp h), map_eq_some_iff]
  simp only [find_dir helems, eq_comm]

theorem entryType_of_service {loaded : Bool} (hs : RootEntry serviceFiles elems) :
    entryType windows loaded (relPath elems) = some .service := by
  rw [entryType_eq, if_pos ((isService_relPath helems).mpr hs)]

theorem entryType_of_properties {loaded : Bool} (hs : ¬RootEntry serviceFiles elems)
    (hp : RootEntry propertiesFiles elems) :
    entryType windows loaded (relPath elems) = if loaded then none else some .discoveryProperties := by
  rw [entryType_eq, if_neg fun h => hs ((isService_relPath helems).mp h), if_pos ((isProperties_relPath helems).mpr hp)]

theorem isDiscoveryEntry_inDir (heq : elems = [d.name, f]) :
    matchString (discoveryEntryRegex windows d.name) (relPath elems) = true ↔ EndsIn discoveryExts f := by
  rw [isDiscoveryEntry_relPath helems, heq]
  constructor
  · rintro ⟨p, x, e, he, h | h⟩
    · exact ⟨x, e, he, (cons.inj (cons.inj h).2).1⟩
    · simp at h
  · rintro ⟨x, e, he, rfl⟩
    exact ⟨[], x, e, he, .inl rfl⟩

/-! ## Loading by place -/

variable {loaded : Bool}

section

variable (h : LoadedByPlace windows loaded elems)
include h

theorem LoadedByPlace.of_service (hs : RootEntry serviceFiles elems) : ∃ f ∈ serviceFiles, elems = [f] :=
  h.service (entryType_of_service helems hs)

theorem LoadedByPlace.of_dir (hd : DirEntry d.name yamlExts elems) (hp : ¬RootEntry propertiesFiles elems) :
    ∃ f, elems = [d.name, f] := by
  by_cases hs : RootEntry serviceFiles elems
  · obtain ⟨f, -, rfl⟩ := h.of_service helems hs
    obtain ⟨p, x, e, -, heq | heq⟩ := hd <;> simp at heq
  · have ht : Discovery.entryType windows loaded (relPath elems) = some (d.entryTypeOf windows (relPath elems)) :=
      (entryType_of_not_root helems hs hp).mpr ⟨d, hd, rfl⟩
    obtain ⟨h1, h2⟩ := d.entryType_ne (matchString (discoveryEntryRegex windows d.name) (relPath elems))
    obtain ⟨d', f, b, -, -, heq, -⟩ := (placement_component h1 h2).mp ((h.component _ h1 h2).mp ht)
    obtain ⟨p, x, e, -, hpa | hpa⟩ := hd
    · have hn : p ++ d.name = d'.name := (cons.inj (hpa.symm.trans heq)).1
      rw [← Dir.eq_of_suffix ⟨p, hn⟩] at heq
      exact ⟨f, heq⟩
    · simp [heq] at hpa

theorem LoadedByPlace.of_properties (hl : loaded = false) (hp : RootEntry propertiesFiles elems) :
    ∃ f ∈ serviceFiles ++ propertiesFiles, elems = [f] := by
  by_cases hs : RootEntry serviceFiles elems
  · obtain ⟨f, hf, heq⟩ := h.of_service helems hs
    exact ⟨f, mem_append_left _ hf, heq⟩
  · have ht : Discovery.entryType windows loaded (relPath elems) = some .discoveryProperties := by
      rw [entryType_of_properties helems hs hp, hl]
      rfl
    obtain ⟨f, hf, heq⟩ := h.properties ht
    exact ⟨f, mem_append_right _ hf, heq⟩

theorem LoadedByPlace.placed : Placed loaded elems where
  service := by
    refine single_of_rootEntry (fun f => mem_append_left propertiesFiles) fun hs => ?_
    obtain ⟨f, hf, heq⟩ := h.of_service helems hs
    exact ⟨f, mem_append_left _ hf, heq⟩
  properties := fun hl =>
    single_of_rootEntry (fun f => mem_append_right serviceFiles) (h.of_properties helems hl)
  propertiesDir := by
    intro d f hf heq
    obtain ⟨h1, h2⟩ := d.entryType_ne true
    have hd := endsIn_properties hf
    have hpl : Placement (d.entryType true) elems :=
      (placement_component h1 h2).mpr ⟨d, f, true, endsIn_yaml_of_discovery hd, by simpa using hd, heq, rfl⟩
    have ht := (h.component _ h1 h2).mpr hpl
    -- the name of the file comes first
    by_cases hs : RootEntry serviceFiles elems
    · rw [entryType_of_service helems hs] at ht
      exact h1 (some.inj ht).symm
    · rw [entryType_of_properties helems hs ⟨d.name, f, hf, .inr heq⟩] at ht
      cases loaded with
      | true => cases ht
      | false => exact h2 (some.inj ht).symm
  dir := by
    intro d p f hf hno heq
    obtain ⟨x, e, he, rfl⟩ := hf
    have hp : ¬RootEntry propertiesFiles elems := by
      rintro ⟨p', f', hf', h' | h'⟩
      · simp [heq] at h'
      · have hfi : x ++ e = f' := (cons.inj (cons.inj (heq.symm.trans h')).2).1
        exact hno (hfi ▸ hf')
    obtain ⟨f', heq'⟩ := h.of_dir helems ⟨p, x, e, he, .inl heq⟩ hp
    have hn : p ++ d.name = d.name := (cons.inj (heq.symm.trans heq')).1
    simpa using hn
  nested := by
    intro d p f hf heq
    obtain ⟨x, e, he, rfl⟩ := hf
    have hp : ¬RootEntry propertiesFiles elems := by
      rintro ⟨p', f', -, h' | h'⟩ <;> simp [heq] at h'
    obtain ⟨f', heq'⟩ := h.of_dir helems ⟨p, x, e, he, .inr heq⟩ hp
    simp [heq] at heq'

end

theorem Placed.component (h : Placed loaded elems) (h1 : t ≠ .service) (h2 : t ≠ .discoveryProperties) :
    entryType windows loaded (relPath elems) = some t ↔ Placement t elems := by
  rw [placement_component h1 h2]
  constructor
  · intro ht
    have hs : ¬RootEntry serviceFiles elems := by
      intro hs
      rw [entryType_of_service helems hs] at ht
      exact h1 (some.inj ht).symm
    have hp : ¬RootEntry propertiesFiles elems := by
      intro hp
      rw [entryType_of_properties helems hs hp] at ht
      cases loaded with
      | true => cases ht
      | false => exact h2 (some.inj ht).symm
    obtain ⟨d, hd, rfl⟩ := (entryType_of_not_root helems hs hp).mp ht
    obtain ⟨f, hf, heq⟩ := h.of_dir hp hd
    exact ⟨d, f, _, hf, isDiscoveryEntry_inDir helems heq, heq, rfl⟩
  · rintro ⟨d, f, discovery, hf, hdi, heq, rfl⟩
    obtain ⟨hs, hp⟩ := h.not_root heq
    obtain ⟨x, e, he, rfl⟩ := hf
    refine (entryType_of_not_root helems hs hp).mpr ⟨d, ⟨[], x, e, he, .inl heq⟩, ?_⟩
    have hsa : discovery = matchString (discoveryEntryRegex windows d.name) (relPath elems) := by
      rw [Bool.eq_iff_iff, hdi, isDiscoveryEntry_inDir helems heq]
    rw [Dir.entryTypeOf, hsa]

theorem Placed.loadedByPlace (h : Placed loaded elems) : LoadedByPlace windows loaded elems where
  service := by
    intro hty
    by_contra hno
    have hs : ¬RootEntry serviceFiles elems := fun hs => hno (h.of_service hs)
    by_cases hp : RootEntry propertiesFiles elems
    · rw [entryType_of_properties helems hs hp] at hty
      cases loaded <;> cases hty
    · obtain ⟨d, -, ht⟩ := (entryType_of_not_root helems hs hp).mp hty
      exact (d.entryType_ne _).1 ht.symm
  properties := by
    intro hty
    by_cases hs : RootEntry serviceFiles elems
    · rw [entryType_of_service helems hs] at hty
      cases hty
    by_cases hp : RootEntry propertiesFiles elems
    · rw [entryType_of_properties helems hs hp] at hty
      cases hl : loaded with
      | true => simp [hl] at hty
      | false => exact h.of_properties hl hp
    · obtain ⟨d, -, ht⟩ := (entryType_of_not_root helems hs hp).mp hty
      exact absurd ht.symm (d.entryType_ne _).2
  component := fun _ h1 h2 => h.component helems h1 h2

theorem loadedByPlace_iff : LoadedByPlace windows loaded elems ↔ Placed loaded elems :=
  ⟨fun h => h.placed helems, fun h => h.loadedByPlace helems⟩

end

theorem loadedByPlace_redis : LoadedByPlace false false [receivers, "redis.discovery.yaml"] := by
  have helems : Elements false [receivers, "redis.discovery.yaml"] :=
    elements_of_texts (by simp) (by decide) (by decide)
  have hp : Placed false [Dir.receivers.name, "redis.discovery.yaml"] :=
    placed_inDir (by decide) (by decide)
  exact (loadedByPlace_iff helems).mpr hp

theorem not_loadedByPlace_service : Elements false [receivers, "service.yaml"] ∧
      ¬LoadedByPlace false false [receivers, "service.yaml"] := by
  have helems : Elements false [receivers, "service.yaml"] :=
    elements_of_texts (by simp) (by decide) (by decide)
  refine ⟨helems, fun h => ?_⟩
  obtain ⟨f, -, heq⟩ := h.of_service helems ⟨receivers, "service.yaml", .head _, .inr rfl⟩
  simp at heq

end Collector.Discovery
