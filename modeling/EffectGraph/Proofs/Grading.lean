import EffectGraph.Proofs.Decoding
import EffectGraph.Proofs.DistinctNames

/-!
# `Proofs.Grading` — grading settings are edited through the handles to their members

The handles to the members of settings are made from names, and the reader of settings looks for names
on its own. Were the two not the same, a write would add a member that nobody reads, and the settings
would keep their defaults. So what is written through the handles is followed into the object that they
belong to (`Property.set_member`, `Property.set_second_member`), and what settings are read from an
object is told by two of its members, whatever the others are (`PostProcessSettings.ofJson_eq_ok`).

The members of an object are a map. As a list they could have a name twice, and then an insertion would
replace the first member while a reader takes in both. The object that holds the settings is asked not
to be like that (`edited_settings_read_back`), and no object is in a document that was read from a text
and edited through handles (`settings_of_edited_document`).

## Contents
- `Json.replaceAt_replaceAt`, of two replacements of one place the second counts.
- `Json.fieldOr`, what the members of an object say of one field.
- `PostProcessHandles.edited_settings_read_back`, and `settings_of_edited_document` for the documents
  that there are.
-/

namespace EffectGraph

open Outcome

/-! ## Two members of one object -/

namespace Json

variable {names : List String} {value later document : Json}

/-- Of two replacements of one place the second counts. -/
theorem replaceAt_replaceAt : replaceAt names later (replaceAt names value document) =
    replaceAt names later document := by
  induction names generalizing document with
  | nil => rfl
  | cons name rest ih =>
    cases hs : document.step? name with
    | none =>
      -- there is no such place, so neither replacement changes anything
      simp only [replaceAt, hs]
    | some child =>
      have hs' : (replaceStep name (replaceAt rest value child) document).step? name =
          some (replaceAt rest value child) := step?_replaceStep_self hs
      simp only [replaceAt, hs, hs', ih]
      rw [replaceStep_eq_store hs', replaceStep_eq_store hs, replaceStep_eq_store hs, store_store]

end Json

namespace Property

variable {names : List String} {name other : String} {document value later : Json}
  {members replaced : Table Json}

/-- A write through the handle to a member inserts that member. -/
theorem set_member (h : (ofNames names).get document = .ok (.object members)) :
    (ofNames (names ++ [name])).set document value =
      .ok (Json.replaceAt names (.object (members.insert name value)) document) :=
  set_eq_ok.mpr ⟨members, get_eq_ok.mp h, rfl⟩

theorem get_replaceAt (h : (ofNames names).get document = .ok (.object members)) :
    (ofNames names).get (Json.replaceAt names value document) = .ok value :=
  get_eq_ok.mpr (Json.follow?_replaceAt_self (get_eq_ok.mp h))

/-- A second write goes into the object that the first one has left. -/
theorem set_second_member (h : (ofNames names).get document = .ok (.object members)) :
    (ofNames (names ++ [other])).set (Json.replaceAt names (.object replaced) document) later =
      .ok (Json.replaceAt names (.object (replaced.insert other later)) document) := by
  rw [set_member (get_replaceAt h), Json.replaceAt_replaceAt]

theorem getAs_eq_ok {α : Type} {decode : Json → Decoded α} {a : α}
    (h : (ofNames names).get document = .ok value) (hdecode : decode value = .ok a) :
    (ofNames names).getAs decode document = .ok a :=
  bind_eq_ok.mpr ⟨value, h, mapError_eq_ok.mpr hdecode⟩

end Property

/-! ## What an object says of a field -/

namespace Json

variable {α : Type} {decode : Json → Decoded α} {before : α} {members rest : Table Json}
  {name key : String} {value : Json}

/-- What the members of an object make of a field: what the one of its name is decoded to, and what
    the field was before if there is none. -/
def fieldOr (members : Table Json) (name : String) (decode : Json → Decoded α) (before : α) : Decoded α :=
  match members.get? name with
  | none => .ok before
  | some value => decode value

theorem fieldOr_of_not_mem (h : name ∉ members.names) : fieldOr members name decode before = .ok before := by
  rw [fieldOr, Table.get?_eq_none h]

theorem fieldOr_insert_self : fieldOr (members.insert name value) name decode before = decode value := by
  rw [fieldOr, Table.get?_insert_self]

theorem fieldOr_insert_of_ne (h : name ≠ key) :
    fieldOr (members.insert key value) name decode before = fieldOr members name decode before := by
  rw [fieldOr, fieldOr, Table.get?_insert_of_ne h]

theorem fieldOr_singleton_self : fieldOr [(name, value)] name decode before = decode value := by
  rw [fieldOr, Table.get?_cons, if_pos rfl]

theorem fieldOr_singleton_of_ne (h : name ≠ key) :
    fieldOr [(key, value)] name decode before = .ok before :=
  fieldOr_of_not_mem (fun hmem => h (List.mem_singleton.mp hmem))

/-- Where a name occurs once, the members can be taken in one after the other. -/
theorem fieldOr_cons (h : key ∉ Table.names rest) : fieldOr ((key, value) :: rest) name decode before =
    fieldOr [(key, value)] name decode before >>= fieldOr rest name decode := by
  by_cases hk : name = key
  · subst hk
    -- no later member can change the field once more
    have hrest : fieldOr rest name decode = Except.ok := by
      funext after
      exact fieldOr_of_not_mem h
    rw [fieldOr_singleton_self, hrest, fieldOr, Table.get?_cons, if_pos rfl]
    exact (bind_pure (decode value)).symm
  · rw [fieldOr_singleton_of_ne hk, fieldOr, Table.get?_cons, if_neg hk]
    rfl

end Json

/-! ## Settings -/

theorem LutFormat.readsBack : Json.ReadsBack toJson ofJson (fun _ => True) := by
  intro format
  cases format <;> exact Json.gives_name rfl

namespace PostProcessSettings

open Json

variable {settings next : PostProcessSettings} {members : Table Json} {name : String} {value : Json}
  {size : UInt32} {format : LutFormat}

/-- Takes one member into settings. -/
def readMember (settings : PostProcessSettings) (name : String) (value : Json) :
    Decoded PostProcessSettings :=
  if name = lutSizeName then return { settings with lutSize := ← value.toUInt32 }
  else if name = lutFormatName then return { settings with lutFormat := ← LutFormat.ofJson value }
  else return settings

theorem lutSizeName_ne_lutFormatName : lutSizeName ≠ lutFormatName := by decide

/-- One member changes the field of its name, if it is one of the two. -/
theorem readMember_eq_ok : readMember settings name value = .ok next ↔
    fieldOr [(name, value)] lutSizeName toUInt32 settings.lutSize = .ok next.lutSize ∧
    fieldOr [(name, value)] lutFormatName LutFormat.ofJson settings.lutFormat = .ok next.lutFormat := by
  obtain ⟨oldSize, oldFormat⟩ := settings
  obtain ⟨nextSize, nextFormat⟩ := next
  unfold readMember
  by_cases hsize : name = lutSizeName
  · subst hsize
    rw [if_pos rfl, fieldOr_singleton_self, fieldOr_singleton_of_ne lutSizeName_ne_lutFormatName.symm,
      bind_eq_ok]
    simp
  · rw [if_neg hsize, fieldOr_singleton_of_ne (Ne.symm hsize)]
    by_cases hformat : name = lutFormatName
    · subst hformat
      rw [if_pos rfl, fieldOr_singleton_self, bind_eq_ok]
      simp [and_comm]
    · rw [if_neg hformat, fieldOr_singleton_of_ne (Ne.symm hformat)]
      simp

/-- Members with distinct names change the two fields apart from each other. -/
theorem foldlM_readMember_eq_ok (h : members.names.Nodup) :
    members.foldlM (fun settings (name, value) => readMember settings name value) settings = .ok next ↔
      fieldOr members lutSizeName toUInt32 settings.lutSize = .ok next.lutSize ∧
      fieldOr members lutFormatName LutFormat.ofJson settings.lutFormat = .ok next.lutFormat := by
  induction members generalizing settings with
  | nil =>
    obtain ⟨nextSize, nextFormat⟩ := next
    cases settings
    rw [List.foldlM_nil, fieldOr_of_not_mem List.not_mem_nil, fieldOr_of_not_mem List.not_mem_nil]
    simp
  | cons member rest ih =>
    -- each side goes through the settings, or through both fields, that the first member leaves
    obtain ⟨name, value⟩ := member
    obtain ⟨hname, hrest⟩ := List.nodup_cons.mp h
    rw [List.foldlM_cons, bind_eq_ok, fieldOr_cons hname, fieldOr_cons hname, bind_eq_ok, bind_eq_ok]
    constructor
    · rintro ⟨between, hfirst, hlater⟩
      obtain ⟨hsize, hformat⟩ := readMember_eq_ok.mp hfirst
      obtain ⟨hsize', hformat'⟩ := (ih hrest).mp hlater
      exact ⟨⟨between.lutSize, hsize, hsize'⟩, ⟨between.lutFormat, hformat, hformat'⟩⟩
    · rintro ⟨⟨size, hsize, hsize'⟩, ⟨format, hformat, hformat'⟩⟩
      exact ⟨⟨size, format⟩, readMember_eq_ok.mpr ⟨hsize, hformat⟩,
        (ih hrest).mpr ⟨hsize', hformat'⟩⟩

/-- **The settings in an object are those that two of its members tell**, with the default for one that
    is not there. No other member can make a difference. -/
theorem ofJson_eq_ok (h : members.names.Nodup) : ofJson (.object members) = .ok settings ↔
    fieldOr members lutSizeName toUInt32 ({} : PostProcessSettings).lutSize = .ok settings.lutSize ∧
    fieldOr members lutFormatName LutFormat.ofJson ({} : PostProcessSettings).lutFormat =
      .ok settings.lutFormat := by
  rw [← foldlM_readMember_eq_ok h]
  -- an object has no length that could be wrong
  show (members.foldlM (fun settings (name, value) => readMember settings name value) {} >>=
    fun record => pure record) = .ok settings ↔ _
  rw [bind_pure]

theorem ofJson_insert_both (h : members.names.Nodup) :
    ofJson (.object ((members.insert lutSizeName (nat size.toNat)).insert lutFormatName format.toJson)) =
      .ok ⟨size, format⟩ := by
  rw [ofJson_eq_ok (Table.nodup_insert (Table.nodup_insert h)),
    fieldOr_insert_of_ne lutSizeName_ne_lutFormatName, fieldOr_insert_self, fieldOr_insert_self]
  exact ⟨(gives_uint32 size).eq_ok trivial, (LutFormat.readsBack format).eq_ok trivial⟩

theorem ofJson_insert_lutSize (h : members.names.Nodup) (habsent : lutFormatName ∉ members.names) :
    ofJson (.object (members.insert lutSizeName (nat size.toNat))) =
      .ok ⟨size, ({} : PostProcessSettings).lutFormat⟩ := by
  rw [ofJson_eq_ok (Table.nodup_insert h), fieldOr_insert_self,
    fieldOr_insert_of_ne lutSizeName_ne_lutFormatName.symm, fieldOr_of_not_mem habsent]
  exact ⟨(gives_uint32 size).eq_ok trivial, rfl⟩

theorem ofJson_insert_lutFormat (h : members.names.Nodup) (habsent : lutSizeName ∉ members.names) :
    ofJson (.object (members.insert lutFormatName format.toJson)) =
      .ok ⟨({} : PostProcessSettings).lutSize, format⟩ := by
  rw [ofJson_eq_ok (Table.nodup_insert h), fieldOr_insert_self,
    fieldOr_insert_of_ne lutSizeName_ne_lutFormatName, fieldOr_of_not_mem habsent]
  exact ⟨rfl, (LutFormat.readsBack format).eq_ok trivial⟩

end PostProcessSettings

/-! ## Handles -/

namespace PostProcessHandles

open PostProcessSettings (lutSizeName lutFormatName)

/-- The handles to the settings that names lead to. -/
def ofNames (names : List String) : PostProcessHandles := of (Property.ofNames names)

variable {names : List String} {document : Json} {members : Table Json}

theorem lutSize_ofNames : (ofNames names).lutSize = Property.ofNames (names ++ [lutSizeName]) :=
  Property.ofNames_append_singleton.symm

theorem lutFormat_ofNames : (ofNames names).lutFormat = Property.ofNames (names ++ [lutFormatName]) :=
  Property.ofNames_append_singleton.symm

/-- **The two members can be written in either order**, and the two orders leave one document. -/
theorem set_in_either_order (hobject : (ofNames names).root.get document = .ok (.object members))
    (size format : Json) : ∃ withSize withFormat written,
      (ofNames names).lutSize.set document size = .ok withSize ∧
      (ofNames names).lutFormat.set withSize format = .ok written ∧
      (ofNames names).lutFormat.set document format = .ok withFormat ∧
      (ofNames names).lutSize.set withFormat size = .ok written ∧
      withSize = Json.replaceAt names (.object (members.insert lutSizeName size)) document ∧
      withFormat = Json.replaceAt names (.object (members.insert lutFormatName format)) document ∧
      written = Json.replaceAt names
        (.object ((members.insert lutSizeName size).insert lutFormatName format)) document := by
  rw [lutSize_ofNames, lutFormat_ofNames]
  refine ⟨_, _, _, Property.set_member hobject, Property.set_second_member hobject,
    Property.set_member hobject, ?_, rfl, rfl, rfl⟩
  -- the two members have different names, so it does not show which was inserted first
  rw [Property.set_second_member hobject,
    Table.insert_comm PostProcessSettings.lutSizeName_ne_lutFormatName]

/-- What is read when an object has been put in the place of another one. -/
theorem getAs_replaceAt {replaced : Table Json} {settings : PostProcessSettings}
    (hobject : (ofNames names).root.get document = .ok (.object members))
    (h : PostProcessSettings.ofJson (.object replaced) = .ok settings) :
    (ofNames names).root.getAs PostProcessSettings.ofJson
      (Json.replaceAt names (.object replaced) document) = .ok settings :=
  Property.getAs_eq_ok (Property.get_replaceAt hobject) h

/-- **Settings that were edited through their handles are read as they were written.** For every place
    that holds an object, whatever its members are, and for every size and format,

    * the size and the format can be written, in either order, and give one document;
    * that document is the old one with an object in that place in which the two members have been
      inserted; the settings read from it are the size and the format; and every handle reads what it
      read before, value or error, unless its names begin with those of one of the two members or are
      their beginning;
    * where only one of the two is written and there was no other one, the settings have the written
      one and the default of the other.

    The object has each name once, like every object of an edited document
    (`Property.Edited.nodup_names`). -/
theorem edited_settings_read_back (names : List String) (document : Json) (members : Table Json)
    (size : UInt32) (format : LutFormat)
    (hobject : (ofNames names).root.get document = .ok (.object members))
    (hnames : (Table.names members).Nodup) :
    ∃ withSize withFormat written,
      (ofNames names).lutSize.set document (.nat size.toNat) = .ok withSize ∧
      (ofNames names).lutFormat.set withSize format.toJson = .ok written ∧
      (ofNames names).lutFormat.set document format.toJson = .ok withFormat ∧
      (ofNames names).lutSize.set withFormat (.nat size.toNat) = .ok written ∧
      written = Json.replaceAt names (.object
        ((Table.insert members lutSizeName (.nat size.toNat)).insert lutFormatName format.toJson))
        document ∧
      (ofNames names).root.getAs PostProcessSettings.ofJson written = .ok ⟨size, format⟩ ∧
      (∀ others, (∀ field ∈ PostProcessSettings.fields,
          ¬ names ++ [field] <+: others ∧ ¬ others <+: names ++ [field]) →
        (Property.ofNames others).get written = (Property.ofNames others).get document) ∧
      (lutFormatName ∉ Table.names members →
        (ofNames names).root.getAs PostProcessSettings.ofJson withSize =
          .ok ⟨size, ({} : PostProcessSettings).lutFormat⟩) ∧
      (lutSizeName ∉ Table.names members →
        (ofNames names).root.getAs PostProcessSettings.ofJson withFormat =
          .ok ⟨({} : PostProcessSettings).lutSize, format⟩) := by
  obtain ⟨_, _, _, hsize, hboth, hformat, hboth', rfl, rfl, rfl⟩ :=
    set_in_either_order hobject (.nat size.toNat) format.toJson
  refine ⟨_, _, _, hsize, hboth, hformat, hboth', rfl, ?both, ?frame, ?sizeAlone, ?formatAlone⟩
  case both => exact getAs_replaceAt hobject (PostProcessSettings.ofJson_insert_both hnames)
  case frame =>
    intro others happart
    obtain ⟨hs, hs'⟩ := happart lutSizeName (by decide)
    obtain ⟨hf, hf'⟩ := happart lutFormatName (by decide)
    rw [lutSize_ofNames] at hsize
    rw [lutFormat_ofNames] at hboth
    rw [Property.get_set_of_diverges hboth hf hf', Property.get_set_of_diverges hsize hs hs']
  case sizeAlone =>
    intro habsent
    exact getAs_replaceAt hobject (PostProcessSettings.ofJson_insert_lutSize hnames habsent)
  case formatAlone =>
    intro habsent
    exact getAs_replaceAt hobject (PostProcessSettings.ofJson_insert_lutFormat hnames habsent)

/-- Two cameras with settings that cannot be read: a format that is no name, and a size that is no
    number. Neither has the other member. -/
def unreadableGrades : Json :=
  .object [("post/process", .array [.object [("lutFormat", .nat 7), ("~note", .bool true)],
    .object [("m_LutSize", .string "big")]])]

/-- Written through the handles, the settings of both cameras can be read: of the first when its format
    has been written, of the second when its size has, and of both when the two have. The note stays. -/
theorem unreadableGrades_edited :
    (∃ withFormat written,
      (ofNames ["post/process", "0"]).lutFormat.set unreadableGrades LutFormat.argbFloat.toJson =
        .ok withFormat ∧
      (ofNames ["post/process", "0"]).root.getAs PostProcessSettings.ofJson withFormat =
        .ok ⟨({} : PostProcessSettings).lutSize, .argbFloat⟩ ∧
      (ofNames ["post/process", "0"]).lutSize.set withFormat (.nat (64 : UInt32).toNat) = .ok written ∧
      (ofNames ["post/process", "0"]).root.getAs PostProcessSettings.ofJson written =
        .ok ⟨64, .argbFloat⟩ ∧
      (Property.ofNames ["post/process", "0", "~note"]).get written = .ok (.bool true)) ∧
    ∃ withSize written,
      (ofNames ["post/process", "1"]).lutSize.set unreadableGrades (.nat (64 : UInt32).toNat) =
        .ok withSize ∧
      (ofNames ["post/process", "1"]).root.getAs PostProcessSettings.ofJson withSize =
        .ok ⟨64, ({} : PostProcessSettings).lutFormat⟩ ∧
      (ofNames ["post/process", "1"]).lutFormat.set withSize LutFormat.argbFloat.toJson = .ok written ∧
      (ofNames ["post/process", "1"]).root.getAs PostProcessSettings.ofJson written =
        .ok ⟨64, .argbFloat⟩ := by
  constructor
  · obtain ⟨_, withFormat, written, -, -, hformat, hboth, -, hread, hothers, -, halone⟩ :=
      edited_settings_read_back ["post/process", "0"] unreadableGrades _ 64 .argbFloat
        (Property.get_eq_ok.mpr rfl) (by decide)
    refine ⟨withFormat, written, hformat, halone (by decide), hboth, hread, ?_⟩
    rw [hothers ["post/process", "0", "~note"] (by decide)]
    exact Property.get_eq_ok.mpr rfl
  · obtain ⟨withSize, _, written, hsize, hboth, -, -, -, hread, -, halone, -⟩ :=
      edited_settings_read_back ["post/process", "1"] unreadableGrades _ 64 .argbFloat
        (Property.get_eq_ok.mpr rfl) (by decide)
    exact ⟨withSize, written, hsize, halone (by decide), hboth, hread⟩

/-- **Settings can be edited at every object of an edited document.** The members of the object need no
    inspection there: whatever texts and writes have made of the document, the two members are written in
    either order and read back, also alone if there was no other one. -/
theorem settings_of_edited_document (h : Property.Edited document)
    (hobject : (ofNames names).root.get document = .ok (.object members)) (size : UInt32)
    (format : LutFormat) :
    ∃ withSize withFormat written,
      (ofNames names).lutSize.set document (.nat size.toNat) = .ok withSize ∧
      (ofNames names).lutFormat.set withSize format.toJson = .ok written ∧
      (ofNames names).lutFormat.set document format.toJson = .ok withFormat ∧
      (ofNames names).lutSize.set withFormat (.nat size.toNat) = .ok written ∧
      (ofNames names).root.getAs PostProcessSettings.ofJson written = .ok ⟨size, format⟩ ∧
      (lutFormatName ∉ Table.names members →
        (ofNames names).root.getAs PostProcessSettings.ofJson withSize =
          .ok ⟨size, ({} : PostProcessSettings).lutFormat⟩) ∧
      (lutSizeName ∉ Table.names members →
        (ofNames names).root.getAs PostProcessSettings.ofJson withFormat =
          .ok ⟨({} : PostProcessSettings).lutSize, format⟩) := by
  have hnames : members.names.Nodup := h.nodup_names hobject
  obtain ⟨_, _, _, hsize, hboth, hformat, hboth', rfl, rfl, rfl⟩ :=
    set_in_either_order hobject (.nat size.toNat) format.toJson
  refine ⟨_, _, _, hsize, hboth, hformat, hboth',
    getAs_replaceAt hobject (PostProcessSettings.ofJson_insert_both hnames), ?sizeAlone, ?formatAlone⟩
  case sizeAlone =>
    intro habsent
    exact getAs_replaceAt hobject (PostProcessSettings.ofJson_insert_lutSize hnames habsent)
  case formatAlone =>
    intro habsent
    exact getAs_replaceAt hobject (PostProcessSettings.ofJson_insert_lutFormat hnames habsent)

end PostProcessHandles
end EffectGraph
