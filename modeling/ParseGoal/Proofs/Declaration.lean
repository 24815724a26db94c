import ParseGoal.Proofs.Disk.Kept
import ParseGoal.Proofs.FileResolver.Answer
import ParseGoal.Proofs.Path.Ancestors

/-!
What is declared for a file: the goal of its extension, or else that of the nearest manifest. Nothing else
on the disk counts than the ways to the manifests that are looked for, up to the nearest one, and the value
of one field of that one.
-/
namespace ParseGoal

namespace Declaration

variable {d : Declaration} {w w' : World} {path directory : Path}

/-- Where the manifest of a directory is and what it holds, if its name leads to a regular file there. -/
def manifest? (d : Declaration) (w : World) (directory : Path) : Option (Location × Bytes) :=
  match w.disk.locate w.cwd (directory.join d.fileName) with
  | .ok (place, .file content) => some (place, content)
  | _ => none

/-- It can be told that a directory has no manifest. -/
def Lacks (d : Declaration) (w : World) (directory : Path) : Prop :=
  w.disk.isFile w.cwd (directory.join d.fileName) = .ok false ∨
    w.disk.isFile w.cwd (directory.join d.fileName) = .error .missing

/-- The fields of a manifest that holds an object. -/
def object? (content : String) : Option (List (Option String × Json)) :=
  match (Json.read? content.toList).bind Json.canonical? with
  | some (.object fields) => some fields
  | _ => none

/-- Two manifests hold the same, or objects with the same in a field. -/
def SameField (field content content' : String) : Prop :=
  content' = content ∨ ∃ fields fields', object? content = some fields ∧ object? content' = some fields' ∧
    fields'.lookup (some field) = fields.lookup (some field)

theorem goalOfManifest_of_object? {field content : String} {fields : List (Option String × Json)}
    (h : object? content = some fields) :
    goalOfManifest field content =
      match fields.lookup (some field) with
      | some value => goalOfValue field value
      | none => .ok none := by
  unfold object? at h
  unfold goalOfManifest
  generalize (Json.read? content.toList).bind Json.canonical? = value at h ⊢
  rcases value with _ | _ | _ | _ | _ | _ | _ <;> cases h
  rfl

theorem goalOfManifest_of_sameField {field content content' : String} (h : SameField field content content') :
    goalOfManifest field content' = goalOfManifest field content := by
  rcases h with rfl | ⟨fields, fields', hfields, hfields', hsame⟩
  · rfl
  · rw [goalOfManifest_of_object? hfields, goalOfManifest_of_object? hfields', hsame]

theorem manifest?_eq_some {place : Location} {content : Bytes} :
    d.manifest? w directory = some (place, content) ↔
      w.disk.locate w.cwd (directory.join d.fileName) = .ok (place, .file content) := by
  unfold manifest?
  split
  · next heq => rw [heq]; simp
  · next hnone => exact ⟨nofun, fun heq => absurd heq (hnone _ _)⟩

theorem isFile_of_manifest? {found : Location × Bytes} (h : d.manifest? w directory = some found) :
    w.disk.isFile w.cwd (directory.join d.fileName) = .ok true := by
  rw [Disk.isFile, manifest?_eq_some.1 h]
  rfl

theorem isFile_of_manifest?_none (h : d.manifest? w directory = none) :
    w.disk.isFile w.cwd (directory.join d.fileName) ≠ .ok true := by
  unfold manifest? at h
  rw [Disk.isFile]
  cases hlocate : w.disk.locate w.cwd (directory.join d.fileName) with
  | error refusal =>
    intro heq
    cases heq
  | ok found =>
    obtain ⟨place, entry⟩ := found
    cases entry with
    | file content =>
      rw [hlocate] at h
      cases h
    | directory =>
      intro heq
      cases heq
    | link target =>
      intro heq
      cases heq

/-- The endings that declare goals. -/
theorem goalOfExtension?_eq_some_iff (h : path.isAbsolute = true) {goal : Goal} :
    goalOfExtension? path = some goal ↔
      goal = .module ∧ path.EndsIn ".mjs" ∨ goal = .script ∧ path.EndsIn ".cjs" := by
  have hmodule : path.extension? = some "mjs" ↔ path.EndsIn ".mjs" :=
    Path.extension?_eq_some_iff h (by decide) (by decide)
  have hscript : path.extension? = some "cjs" ↔ path.EndsIn ".cjs" :=
    Path.extension?_eq_some_iff h (by decide) (by decide)
  rw [← hmodule, ← hscript]
  unfold goalOfExtension?
  split
  · next heq => simp [heq, eq_comm]
  · next heq => simp [heq, eq_comm]
  · next hmjs hcjs => exact iff_of_false nofun fun hends => hends.elim (hmjs ·.2) (hcjs ·.2)

/-! What a change leaves. -/

section

variable (hname : Path.IsName d.fileName) (habsolute : directory.isAbsolute = true)
  (hkept : w.disk.KeepsTrail w'.disk w.cwd (directory.join d.fileName))

include hname habsolute hkept

theorem lacks_of_keepsTrail (h : d.Lacks w directory) : d.Lacks w' directory := by
  have hjoin := (Path.isAbsolute_join directory hname).trans habsolute
  rw [Lacks, Disk.isFile_of_isAbsolute hjoin w.cwd, Disk.isFile_of_keepsTrail hkept h]
  exact h

theorem manifest?_of_keepsTrail {place : Location} {content content' : Bytes}
    (h : d.manifest? w directory = some (place, content)) (hafter : w'.disk.entry? place = some (.file content')) :
    d.manifest? w' directory = some (place, content') := by
  have hjoin := (Path.isAbsolute_join directory hname).trans habsolute
  rw [manifest?_eq_some, Disk.locate_of_isAbsolute hjoin w.cwd]
  exact Disk.locate_of_keepsTrail hkept (manifest?_eq_some.1 h) hafter

end

/-! Looking through directories. -/

theorem act_findIn_cons (d : Declaration) (w : World) (directory : Path) (rest : List Path) :
    w.act (d.findIn (directory :: rest)) =
      match w.disk.isFile w.cwd (directory.join d.fileName) with
      | .ok true => (.ok (some (directory.join d.fileName)), w)
      | .ok false => w.act (d.findIn rest)
      | .error .missing => w.act (d.findIn rest)
      | .error refusal =>
        (.error (.io s!"checking manifest {directory.join d.fileName}" refusal.reason), w) := by
  have hasked : w.perform (.isFile (directory.join d.fileName)) =
      (w.disk.isFile w.cwd (directory.join d.fileName), w) := rfl
  rw [findIn]
  refine (World.act_ask _ hasked).trans ?_
  cases w.disk.isFile w.cwd (directory.join d.fileName) with
  | ok found => cases found <;> rfl
  | error refusal => cases refusal <;> rfl

/-- Directories without a manifest are passed over. -/
theorem act_findIn_append {nearer : List Path} (h : ∀ other ∈ nearer, d.Lacks w other) (rest : List Path) :
    w.act (d.findIn (nearer ++ rest)) = w.act (d.findIn rest) := by
  induction nearer with
  | nil => rfl
  | cons other nearer ih =>
    have hrest := ih fun another hmem => h another (List.mem_cons_of_mem _ hmem)
    rw [List.cons_append, act_findIn_cons]
    rcases h other List.mem_cons_self with hfile | hfile
    · rw [hfile]
      exact hrest
    · rw [hfile]
      exact hrest

/-- Where the file system refuses nothing, it can be told which directories have no manifest. -/
theorem lacks_of_findIn {nearer rest : List Path}
    (hio : ∀ doing cause, (w.act (d.findIn (nearer ++ rest))).1 ≠ .error (.io doing cause))
    (h : ∀ other ∈ nearer, d.manifest? w other = none) : ∀ other ∈ nearer, d.Lacks w other := by
  induction nearer with
  | nil => exact nofun
  | cons other nearer ih =>
    have hlacks : d.Lacks w other := by
      have hfile := isFile_of_manifest?_none (h other List.mem_cons_self)
      rw [List.cons_append, act_findIn_cons] at hio
      unfold Lacks
      generalize w.disk.isFile w.cwd (other.join d.fileName) = answer at hio hfile ⊢
      split at hio
      · exact absurd rfl hfile
      · exact .inl rfl
      · exact .inr rfl
      · exact absurd rfl (hio _ _)
    have hskip : w.act (d.findIn ([other] ++ (nearer ++ rest))) = w.act (d.findIn (nearer ++ rest)) :=
      act_findIn_append (by simpa using hlacks) (nearer ++ rest)
    rw [List.cons_append, ← List.singleton_append, hskip] at hio
    have hrest := ih hio fun another hmem => h another (List.mem_cons_of_mem _ hmem)
    exact List.forall_mem_cons.2 ⟨hlacks, hrest⟩

theorem nearest_eq (d : Declaration) (path : Path) : d.nearest path = d.findIn path.around := by
  unfold nearest Path.around
  cases path.parent? <;> rfl

/-! What is declared. -/

/-- The goal that the nearest manifest declares, if there is one. -/
def goalOf (d : Declaration) : Option Path → Action (Option Goal)
  | none => return none
  | some manifest => do
    let content ← Action.doing s!"reading manifest {manifest}" (Program.readText manifest)
    Action.ofExcept ((goalOfManifest d.field content).mapError (.manifestInvalid manifest))

theorem declared_of_extension {goal : Goal} (henabled : d.enabled = true) (hextensions : d.extensions = true)
    (hgoal : goalOfExtension? path = some goal) (w : World) : w.declared d path = .ok (some goal) := by
  unfold World.declared lookup
  rw [if_pos henabled, if_pos hextensions, hgoal]
  rfl

section

variable (henabled : d.enabled = true)
  (hextension : (if d.extensions then goalOfExtension? path else none) = none)

include henabled hextension

theorem lookup_eq : d.lookup path = d.findIn path.around >>= d.goalOf := by
  unfold lookup
  rw [if_pos henabled, hextension, nearest_eq]
  rfl

theorem findIn_of_declared (hio : ∀ doing cause, w.declared d path ≠ .error (.io doing cause)) (doing cause : String) :
    (w.act (d.findIn path.around)).1 ≠ .error (.io doing cause) := by
  intro herror
  refine hio doing cause ?_
  rw [World.declared, lookup_eq henabled hextension, World.act_bind, herror]

theorem declared_of_lacks (h : ∀ other ∈ path.around, d.Lacks w other) : w.declared d path = .ok none := by
  have hfind := act_findIn_append h []
  rw [List.append_nil] at hfind
  rw [World.declared, lookup_eq henabled hextension, World.act_bind, hfind]
  rfl

theorem declared_of_manifest {nearer farther : List Path} {place : Location} {content : Bytes}
    (haround : path.around = nearer ++ directory :: farther) (hlacks : ∀ other ∈ nearer, d.Lacks w other)
    (hmanifest : d.manifest? w directory = some (place, content)) :
    w.declared d path =
      match Utf8.toString? content with
      | some text => (goalOfManifest d.field text).mapError (.manifestInvalid (directory.join d.fileName))
      | none => .error (.io s!"reading manifest {directory.join d.fileName}" Refusal.invalidText.reason) := by
  have hfind : w.act (d.findIn path.around) = (.ok (some (directory.join d.fileName)), w) := by
    rw [haround, act_findIn_append hlacks, act_findIn_cons, isFile_of_manifest? hmanifest]
  have hread : w.disk.read w.cwd (directory.join d.fileName) = .ok content := by
    rw [Disk.read, manifest?_eq_some.1 hmanifest]
    rfl
  rw [World.declared, lookup_eq henabled hextension, World.act_bind_ok w _ hfind, goalOf]
  rw [World.act_bind, Action.doing, World.act_orFail, Program.run_readText hread]
  cases Utf8.toString? content <;> rfl

end

/--
What an enabled lookup declares for an absolute path, unless the file system refuses something. The directories
around the path are those of its names cut short, the longest first; a manifest has its name in one of them.

* A last name that ends in `.mjs` or `.cjs`, with something before that, declares a goal by itself.
* Otherwise nothing is declared where no directory has a manifest, and goes on not to be, as long as all on the ways
  to where they would be stays, except for regular files.
* Otherwise the nearest manifest declares what its field says. That stays as it is whatever happens to the disk,
  as long as all on the ways up to that manifest stays, except for regular files, and that manifest still holds
  an object with the same in the field.
-/
theorem declared_nearest (w : World) (henabled : d.enabled = true) (hname : Path.IsName d.fileName)
    (habsolute : path.isAbsolute = true) (hio : ∀ doing cause, w.declared d path ≠ .error (.io doing cause)) :
    path.around.map Path.names = path.names.inits.reverse.tail ∧
    (∀ directory ∈ path.around, (directory.join d.fileName).names = directory.names ++ [d.fileName]) ∧
    (d.extensions = true → path.EndsIn ".mjs" → ∀ w' : World, w'.declared d path = .ok (some .module)) ∧
    (d.extensions = true → path.EndsIn ".cjs" → ∀ w' : World, w'.declared d path = .ok (some .script)) ∧
    (¬(d.extensions = true ∧ (path.EndsIn ".mjs" ∨ path.EndsIn ".cjs")) →
      ((∀ directory ∈ path.around, d.manifest? w directory = none) →
        w.declared d path = .ok none ∧
        ∀ w' : World,
          (∀ directory ∈ path.around, w.disk.KeepsTrail w'.disk w.cwd (directory.join d.fileName)) →
            w'.declared d path = .ok none) ∧
      ∀ nearer directory farther place content, path.around = nearer ++ directory :: farther →
        (∀ other ∈ nearer, d.manifest? w other = none) → d.manifest? w directory = some (place, content) →
        ∃ text, Utf8.toString? content = some text ∧
          w.declared d path =
            (goalOfManifest d.field text).mapError (.manifestInvalid (directory.join d.fileName)) ∧
          ∀ (w' : World) (content' : Bytes) (text' : String),
            (∀ other ∈ nearer ++ [directory],
              w.disk.KeepsTrail w'.disk w.cwd (other.join d.fileName)) →
            w'.disk.entry? place = some (.file content') → Utf8.toString? content' = some text' →
            SameField d.field text text' → w'.declared d path = w.declared d path) := by
  have hlooked (directory : Path) (hmem : directory ∈ path.around) : directory.isAbsolute = true :=
    Path.isAbsolute_of_mem_around habsolute hmem
  refine ⟨Path.map_names_around habsolute, fun directory _ => Path.names_join directory hname, ?_, ?_, ?_⟩
  · intro hextensions hends w'
    exact declared_of_extension henabled hextensions
      ((goalOfExtension?_eq_some_iff habsolute).2 (.inl ⟨rfl, hends⟩)) w'
  · intro hextensions hends w'
    exact declared_of_extension henabled hextensions
      ((goalOfExtension?_eq_some_iff habsolute).2 (.inr ⟨rfl, hends⟩)) w'
  intro hends
  have hextension : (if d.extensions then goalOfExtension? path else none) = none := by
    split_ifs with hextensions
    · refine Option.eq_none_iff_forall_ne_some.2 fun goal hgoal => hends ⟨hextensions, ?_⟩
      exact ((goalOfExtension?_eq_some_iff habsolute).1 hgoal).imp And.right And.right
    · rfl
  have hfind := findIn_of_declared henabled hextension hio
  constructor
  · intro hnone
    have hlacks : ∀ directory ∈ path.around, d.Lacks w directory := by
      rw [← List.append_nil path.around] at hfind
      exact lacks_of_findIn hfind hnone
    refine ⟨declared_of_lacks henabled hextension hlacks, fun w' hkept => ?_⟩
    refine declared_of_lacks henabled hextension fun directory hmem => ?_
    exact lacks_of_keepsTrail hname (hlooked directory hmem) (hkept directory hmem) (hlacks directory hmem)
  · intro nearer directory farther place content haround hnearer hmanifest
    have hlacks : ∀ other ∈ nearer, d.Lacks w other := by
      rw [haround] at hfind
      exact lacks_of_findIn hfind hnearer
    have hdeclared := declared_of_manifest henabled hextension haround hlacks hmanifest
    cases htext : Utf8.toString? content with
    | none =>
      rw [htext] at hdeclared
      exact absurd hdeclared (hio _ _)
    | some text =>
      rw [htext] at hdeclared
      refine ⟨text, rfl, hdeclared, fun w' content' text' hkept hafter htext' hfield => ?_⟩
      have hlacks' : ∀ other ∈ nearer, d.Lacks w' other := fun other hmem =>
        lacks_of_keepsTrail hname (hlooked other (haround ▸ List.mem_append_left _ hmem))
          (hkept other (List.mem_append_left _ hmem)) (hlacks other hmem)
      have hmanifest' : d.manifest? w' directory = some (place, content') :=
        manifest?_of_keepsTrail hname (hlooked directory (haround ▸ List.mem_append_right _ List.mem_cons_self))
          (hkept directory (List.mem_append_right _ List.mem_cons_self)) hmanifest hafter
      rw [declared_of_manifest henabled hextension haround hlacks' hmanifest', htext', hdeclared]
      dsimp only
      rw [goalOfManifest_of_sameField hfield]

/-- A manifest with some text. -/
private def manifest (text : String) : Entry := .file (Utf8.ofString text)

private def plainText : String := "\x7b\"type\":\"module\"\x7d"

private def namedText : String := "\x7b\"name\":\"n\",\"type\":\"module\"\x7d"

/-- The manifest of `/p`, a directory of that name nearer to the file, and a manifest above. -/
private def nested : Disk :=
  ((((Disk.empty.put ["package.json"] (manifest "\x7b\"type\":\"commonjs\"\x7d")).put ["p"] .directory).put
    ["package.json", "p"] (manifest plainText)).put ["q", "p"] .directory).put
      ["package.json", "q", "p"] .directory

/-- The same with a directory in place of the manifest above, and with another field in the nearest one. -/
private def nestedAfter : Disk :=
  (nested.put ["package.json"] .directory).put ["package.json", "p"] (manifest namedText)

theorem declared_nearest_of_directory :
    let d : Declaration := {}
    let w : World := { disk := nested }
    d.enabled = true ∧ Path.IsName d.fileName ∧ Path.isAbsolute "/p/q/a.js" = true ∧
      w.declared d "/p/q/a.js" = .ok (some .module) ∧
      World.declared { disk := nestedAfter } d "/p/q/a.js" = .ok (some .module) := by
  intro d w
  have hname : Path.IsName d.fileName := ⟨by decide, by decide, by decide, by decide⟩
  have hdeclared : w.declared d "/p/q/a.js" = .ok (some .module) := by decide +kernel
  have hio : ∀ doing cause, w.declared d "/p/q/a.js" ≠ .error (.io doing cause) := by
    rw [hdeclared]
    exact fun _ _ => nofun
  have hends : ¬(d.extensions = true ∧ (Path.EndsIn "/p/q/a.js" ".mjs" ∨ Path.EndsIn "/p/q/a.js" ".cjs")) := by
    have hnone : goalOfExtension? "/p/q/a.js" = none := by decide +kernel
    rintro ⟨-, hmjs | hcjs⟩
    · exact nomatch hnone.symm.trans ((goalOfExtension?_eq_some_iff (by decide)).2 (.inl ⟨rfl, hmjs⟩))
    · exact nomatch hnone.symm.trans ((goalOfExtension?_eq_some_iff (by decide)).2 (.inr ⟨rfl, hcjs⟩))
  have haround : Path.around "/p/q/a.js" = ["/p/q"] ++ "/p" :: ["/"] := by decide +kernel
  have hnearer : ∀ other ∈ ["/p/q"], d.manifest? w other = none := by decide +kernel
  have hfound : d.manifest? w "/p" = some (["package.json", "p"], Utf8.ofString plainText) := by decide +kernel
  obtain ⟨-, -, -, -, hmanifest⟩ := declared_nearest w (d := d) rfl hname (by decide) hio
  obtain ⟨text, htext, -, hstays⟩ := (hmanifest hends).2 _ _ _ _ _ haround hnearer hfound
  have hplain : Utf8.toString? (Utf8.ofString plainText) = some plainText := by decide +kernel
  obtain rfl := Option.some.inj (hplain.symm.trans htext)
  have hnamed : Utf8.toString? (Utf8.ofString namedText) = some namedText := by decide +kernel
  have hafter : Disk.entry? nestedAfter ["package.json", "p"] = some (manifest namedText) := by decide +kernel
  have hkept (place : Location) : nested.StaysAt nestedAfter place := by
    have habove : nested.entry? ["package.json"] = some (manifest "\x7b\"type\":\"commonjs\"\x7d") := by
      decide +kernel
    have hnearest : nested.entry? ["package.json", "p"] = some (manifest plainText) := by decide +kernel
    exact ((Disk.StaysAt.refl nested place).put habove _).put hnearest _
  have hfield : SameField d.field plainText namedText := by
    have hbefore : object? plainText = some [(some "type", .string (some "module"))] := by cbv
    have hthen : object? namedText =
        some [(some "name", .string (some "n")), (some "type", .string (some "module"))] := by cbv
    exact .inr ⟨_, _, hbefore, hthen, rfl⟩
  have hsame := hstays { disk := nestedAfter } _ _ (fun _ _ place _ => hkept place) hafter hnamed hfield
  exact ⟨rfl, hname, by decide, hdeclared, hsame.trans hdeclared⟩

private def bareText : String := "\x7b\x7d"

/-- A text with half of a surrogate pair in it. -/
private def halfText : String := "\x7b\"name\":\"\\ud800\",\"type\":\"module\"\x7d"

/-- A directory in another one, with a manifest in the inner one. -/
private def inner : Disk :=
  ((Disk.empty.put ["r"] .directory).put ["b", "r"] .directory).put ["package.json", "b", "r"] (manifest plainText)

/-- The manifest is a link to a file with some text. -/
private def linked (text : String) : Disk :=
  (Disk.empty.put ["package.json"] (.link "m.json")).put ["m.json"] (manifest text)

/-- A manifest above a directory. -/
private def above (text : String) : Disk :=
  (Disk.empty.put ["r"] .directory).put ["package.json"] (manifest text)

/--
Provisos that cannot be left out. A name that is nothing but an ending has no extension. A path that goes down
and up again is looked up along its names, and not along the directories around the file. A link counts as
a manifest, and what it leads to is another file. A manifest that is put nearer to the file takes the place of
the nearest one. An object with half of a surrogate pair in it is well formed and cannot be read.
-/
theorem declared_provisos :
    (".mjs".toList <:+ "/x/.mjs".toList ∧ World.declared {} {} "/x/.mjs" = .ok none) ∧
    (inner.directory? [] "/r/b/.." = some ["r"] ∧ inner.entry? ["package.json", "r"] = none ∧
      inner.entry? ["package.json"] = none ∧
      World.declared { disk := inner } {} "/r/b/../c.js" = .ok (some .module)) ∧
    (World.declared { disk := linked plainText } {} "/a.js" = .ok (some .module) ∧
      World.declared { disk := linked bareText } {} "/a.js" = .ok none) ∧
    (World.declared { disk := above plainText } {} "/r/a.js" = .ok (some .module) ∧
      World.declared { disk := (above plainText).put ["package.json", "r"] (manifest bareText) } {} "/r/a.js" =
        .ok none) ∧
    (∃ fields, Json.read? halfText.toList = some (.object fields) ∧
      fields.lookup (some "type") = some (.string (some "module"))) ∧
    World.declared { disk := above namedText } {} "/r/a.js" = .ok (some .module) ∧
    World.declared { disk := above halfText } {} "/r/a.js" =
      .error (.manifestInvalid "/package.json" "not a JSON value") := by
  refine ⟨by decide +kernel, by decide +kernel, by decide +kernel, by decide +kernel, ?_, by decide +kernel⟩
  exact ⟨[(some "name", .string none), (some "type", .string (some "module"))], by cbv, rfl⟩

end Declaration
end ParseGoal
