import DspAsm.CommandLine.Basic
import DspAsm.Proofs.Outcome
import DspAsm.Proofs.Text.Numeral

namespace DspAsm.CommandLine

/-! ## Rules -/

inductive Configures (parse? : String → Option Layout) (files : Files) : Option String → Layout → Prop
  | standard : Configures parse? files none { columnWidth := 16, autoLabels := true, labelStem := "L" }
  | file {path text : String} {layout : Layout} (stored : files.read path = .ok text.toUTF8)
      (spelled : parse? text = some layout) : Configures parse? files (some path) layout

structure Overrides (options : DecompileOptions) (configured layout : Layout) : Prop where
  width_given : ∀ width, options.columnWidth = some width → layout.columnWidth = width
  width_kept : options.columnWidth = none → layout.columnWidth = configured.columnWidth
  labels_dropped : options.noAutoLabels = true → layout.autoLabels = false
  labels_kept : options.noAutoLabels = false → layout.autoLabels = configured.autoLabels
  stem_given : ∀ stem, options.labelStem = some stem → layout.labelStem = stem
  stem_kept : options.labelStem = none → layout.labelStem = configured.labelStem

inductive Shows (layout : Layout) (program : Program) : Format → String → Prop
  | listing : Shows layout program .text (program.listing layout)
  | image {words : List String}
      (dumped : List.Forall₂ (fun word => Numeral.IsHexWord word.toNat) program.words words) :
      Shows layout program .json ((Json.obj [("words", .arr (words.map .str)),
        ("labels", .obj (program.scope.labels.entries.map fun entry => (entry.1, .nat entry.2))),
        ("instructions", .arr (program.instructions.map Instruction.toJson))]).pretty ++ "\n")

section

variable (parse? : String → Option Layout) (files : Files) (options : DecompileOptions)

inductive Decodes : String → Prop
  | intro {configured layout : Layout} {bytes : ByteArray} {program : Program} {text : String}
      (configures : Configures parse? files options.config configured) (overrides : Overrides options configured layout)
      (stored : files.read options.input = .ok bytes) (even : 4 ∣ bytes.size)
      (decoded : Program.ofBytes layout bytes.data.toList = .ok program)
      (shows : Shows layout program options.format text) : Decodes text

end

theorem fromUTF8?_eq_some {bytes : ByteArray} {text : String} :
    String.fromUTF8? bytes = some text ↔ bytes = text.toUTF8 := by
  unfold String.fromUTF8?
  split
  · rw [Option.some.injEq]
    constructor
    · intro same
      rw [← same]
      rfl
    · intro same
      subst same
      rfl
  · rename_i invalid
    refine ⟨nofun, ?_⟩
    intro same
    exact absurd (same ▸ text.isValidUTF8) invalid

section

variable {files : Files} {path : String}

theorem readText_eq_ok {text : String} : files.readText path = .ok text ↔ files.read path = .ok text.toUTF8 := by
  rw [Files.readText, bind_eq_ok]
  constructor
  · rintro ⟨bytes, stored, read⟩
    split at read
    · rename_i found
      cases read
      rw [stored, fromUTF8?_eq_some.mp found]
    · cases read
  · intro stored
    refine ⟨_, stored, ?_⟩
    rw [fromUTF8?_eq_some.mpr rfl]
    rfl

end

/-! ## Texts -/

theorem forall₂_isHexWord {words : List Word} {texts : List String} :
    List.Forall₂ (fun word => Numeral.IsHexWord word.toNat) words texts ↔
      texts = words.map fun word => Numeral.hexWord word.toNat := by
  constructor
  · intro dumped
    have same : List.Forall₂ Eq (words.map fun word => Numeral.hexWord word.toNat) texts := by
      refine List.forall₂_map_left_iff.mpr (dumped.imp ?_)
      intro word text spelled
      exact ((Numeral.isHexWord_iff word.toNat_lt).mp spelled).symm
    rw [List.forall₂_eq_eq_eq] at same
    exact same.symm
  · rintro rfl
    refine List.forall₂_map_right_iff.mpr (List.forall₂_same.mpr ?_)
    intro word _
    exact Numeral.isHexWord_hexWord word.toNat_lt

theorem shows_iff {layout : Layout} {program : Program} {format : Format} {text : String} :
    Shows layout program format text ↔ text = format.render layout program := by
  constructor
  · intro shows
    cases shows with
    | listing => rfl
    | image dumped =>
      rw [forall₂_isHexWord.mp dumped, List.map_map]
      rfl
  · rintro rfl
    cases format with
    | text => exact .listing
    | json =>
      have shows : Shows layout program .json _ := .image (forall₂_isHexWord.mpr rfl)
      rw [List.map_map] at shows
      exact shows

theorem overrides_iff {options : DecompileOptions} {configured layout : Layout} :
    Overrides options configured layout ↔ layout = override options configured := by
  constructor
  · intro overrides
    have width : layout.columnWidth = options.columnWidth.getD configured.columnWidth := by
      cases asked : options.columnWidth with
      | none => exact overrides.width_kept asked
      | some width => exact overrides.width_given width asked
    have labels : layout.autoLabels = (configured.autoLabels && !options.noAutoLabels) := by
      cases asked : options.noAutoLabels with
      | false => rw [overrides.labels_kept asked, Bool.not_false, Bool.and_true]
      | true => rw [overrides.labels_dropped asked, Bool.not_true, Bool.and_false]
    have stem : layout.labelStem = options.labelStem.getD configured.labelStem := by
      cases asked : options.labelStem with
      | none => exact overrides.stem_kept asked
      | some stem => exact overrides.stem_given stem asked
    cases layout
    rw [override, Layout.mk.injEq]
    exact ⟨width, labels, stem⟩
  · rintro rfl
    constructor <;> simp +contextual [override]

/-! ## Stages -/

section

variable {parse? : String → Option Layout} {files : Files}

theorem Configures.loadConfig {config : Option String} {layout : Layout}
    (configures : Configures parse? files config layout) : loadConfig parse? files config = .ok layout := by
  cases configures with
  | standard => rfl
  | file stored spelled =>
    rw [CommandLine.loadConfig, readText_eq_ok.mpr stored, Except.mapError, ok_bind, spelled]

variable {options : DecompileOptions} {configured layout : Layout}

theorem loadImage_eq {bytes : ByteArray} (stored : files.read options.input = .ok bytes) :
    loadImage files options.input =
      if 4 ∣ bytes.size then .ok bytes.data.toList else .error (.unevenImage options.input bytes.size) := by
  rw [loadImage, stored, Except.mapError, ok_bind]
  simp only [Nat.dvd_iff_mod_eq_zero, ne_eq, ite_not]

theorem loadListing_eq (configures : Configures parse? files options.config configured)
    (overrides : Overrides options configured layout) :
    loadListing parse? files options = (do
      let program ← (Program.ofBytes layout (← loadImage files options.input)).mapError (.decoding options.input)
      return options.format.render layout program) := by
  rw [loadListing, configures.loadConfig, ok_bind, overrides_iff.mp overrides]

theorem Decodes.loadListing {text : String} (decodes : Decodes parse? files options text) :
    loadListing parse? files options = .ok text := by
  obtain ⟨configures, overrides, stored, even, decoded, shows⟩ := decodes
  rw [loadListing_eq configures overrides, loadImage_eq stored, if_pos even, ok_bind, decoded, shows_iff.mp shows]
  rfl

end

/-! ## Endings -/

variable {parse? : String → Option Layout} {files : Files} {code : UInt8} {printed : String}
  {written : Option (String × ByteArray)}

end DspAsm.CommandLine
