import MarketPlace.ResponseBodies

/-!
# What the foreign keys of a body name

A body of the market names rows by the foreign keys that the services write,
and by any that the details of its products hold.  A property of all that these
name is a property of all that the body names.
-/

namespace MarketPlace.Relations

open Trade (Json)

/-- The entry names only what has the property. -/
def EntryNames (app : RelationsDeployment)
    (good : Option EntityType → ℕ → Prop) (container : List (String × Json))
    (field : String × Json) : Prop :=
  ∀ entity id, Names app (container, field) entity id → good entity id

/-- The foreign keys in the payload name only what has the property. -/
def NamesOnly (app : RelationsDeployment)
    (good : Option EntityType → ℕ → Prop) (payload : Json) : Prop :=
  payload.Each (EntryNames app good)

theorem namesOnly_iff {app : RelationsDeployment}
    {good : Option EntityType → ℕ → Prop} {payload : Json} :
    NamesOnly app good payload ↔
      ∀ collected ∈ collectIds app payload, ∀ id ∈ collected.2,
        good collected.1 id := by
  have hlists := @lists_collectIds app (fun entity id => ¬ good entity id)
    payload
  constructor
  · intro hnames collected hcollected id hid
    by_contra hbad
    obtain ⟨entry, hentry, entity, other, hnamed, hother⟩ :=
      hlists.mp ⟨collected, hcollected, id, hid, hbad⟩
    exact hother (hnames entry hentry entity other hnamed)
  · intro hall entry hentry entity id hnamed
    by_contra hbad
    obtain ⟨collected, hcollected, other, hid, hother⟩ :=
      hlists.mpr ⟨entry, hentry, entity, id, hnamed, hbad⟩
    exact hother (hall collected hcollected other hid)

instance (app : RelationsDeployment) (good : Option EntityType → ℕ → Prop)
    [∀ entity id, Decidable (good entity id)] (payload : Json) :
    Decidable (NamesOnly app good payload) :=
  decidable_of_iff _ namesOnly_iff.symm

/-- No other number is read as the id of a row without the property. -/
def ReadsApart (app : RelationsDeployment)
    (good : Option EntityType → ℕ → Prop) : Prop :=
  ∀ entity id, ¬ good entity id →
    ∀ number, app.nearestNumber number = id → number = id

/-- The storage provider's answer, with the fields that its uploader signs. -/
def SignedUpload (intent : Trade.UploadIntent) : Prop :=
  intent.headers = none ∧ ∃ fields, intent.fields = some fields ∧
    fields.map Prod.fst = ["api_key", "public_id", "timestamp", "signature"]

/-! ## What a response names -/

section Responses

variable (good : Option EntityType → ℕ → Prop)

def ProductNames (row : Trade.ProductRow) (images : List Trade.ImageView) :
    Prop :=
  good (some .user) row.ownerId ∧
    ∀ image ∈ images, good (some .file) image.fileId

structure ConversationNames (view : Trade.ConversationView) : Prop where
  peer : good (some .user) view.peerUserId
  product : ∀ id, view.productId = some id → good (some .product) id
  lastMessage : ∀ id, view.lastMessageId = some id → good (some .message) id
  image : ∀ id, view.productImageFileId = some id → good (some .file) id

def MessageNames (view : Trade.MessageView) : Prop :=
  good (some .conversation) view.conversationId ∧
    good (some .user) view.senderId

/-- All that a response names by foreign keys, outside of the details of its
products, has the property. -/
def ResponseNames : Trade.Response → Prop
  | .product product => ∀ view, product = some view →
      ProductNames good view.row view.images
  | .items items => ∀ item ∈ items, ProductNames good item.row item.images
  | .publicProfile view => ∀ item ∈ view.products,
      ProductNames good item.row item.images
  | .conversation view => ConversationNames good view
  | .conversations views => ∀ view ∈ views, ConversationNames good view
  | .messages views => ∀ view ∈ views, MessageNames good view
  | .oneMessage view => MessageNames good view
  | .rating row =>
      good (some .user) row.raterId ∧ good (some .user) row.ratedUserId
  | .file view => ∀ uploader, view.row.uploaderUserId = some uploader →
      good (some .user) uploader
  | .uploadIntent view => SignedUpload view.upload
  | _ => True

/-- The details of a product are what its user has written, as they are. -/
def DetailsName (app : RelationsDeployment) (row : Trade.ProductRow) : Prop :=
  ∀ details, row.details = some details → NamesOnly app good details

instance (app : RelationsDeployment) [∀ entity id, Decidable (good entity id)]
    (row : Trade.ProductRow) : Decidable (DetailsName good app row) :=
  inferInstanceAs (Decidable (∀ details, row.details = some details → _))

end Responses

/-! ## Entries -/

section Entries

variable {app : RelationsDeployment} {good : Option EntityType → ℕ → Prop}
  {container : List (String × Json)} {key : String}
  {entity : Option EntityType} {number : ℕ}

/-- Any other key names nothing, whatever its value is. -/
theorem entryNames_of_plain {field : String × Json}
    (hplain : (ruleOf field.1).isNone) : EntryNames app good container field := by
  rintro entity id ⟨rule, hrule, -, -⟩
  rw [ruleOf_of_activeRule hrule] at hplain
  contradiction

/-- Nor does an `owner_id` beside an `owner_type`. -/
theorem entryNames_ownerId {value : Json}
    (howned : hasOwn container "owner_type" = true) :
    EntryNames app good container ("owner_id", value) := by
  rintro entity id ⟨rule, hrule, -, -⟩
  have hown : "owner_id" ∉ objectPrototypeMembers := by decide +kernel
  have hforeign := (activeRule_eq_foreignKey hown).symm.trans hrule
  rw [foreignKey, if_pos ⟨rfl, howned⟩] at hforeign
  contradiction

theorem entity_of_names {field : String × Json}
    {named entity : Option EntityType} {id : ℕ}
    (hrule : (ruleOf field.1).map FkRule.entity = some entity)
    (hnames : Names app (container, field) named id) : named = entity := by
  obtain ⟨rule, hactive, rfl, -⟩ := hnames
  rw [ruleOf_of_activeRule hactive] at hrule
  exact Option.some.inj hrule

/-- The digits of a number read back as the number. -/
theorem decimalValue_toString (number : ℕ) :
    decimalValue (toString number) = some number := by
  have hdigits : (toString number).toList = Nat.toDigits 10 number :=
    Nat.toList_repr
  have hall : (toString number).toList.all Char.isDigit = true := by
    rw [hdigits, List.all_eq_true]
    intro c hc
    exact Nat.isDigit_of_mem_toDigits (by decide) (by decide) hc
  have hne : toString number ≠ "" := Nat.repr_ne_empty
  rw [decimalValue, if_pos ⟨hne, hall⟩, hdigits]
  exact congrArg some Nat.ofDigitChars_ten_toDigits

theorem nearestNumber_of_bigint {number id : ℕ}
    (h : toPositiveInt app (bigintJson number) = some id) :
    app.nearestNumber number = id := by
  rw [bigintJson, toPositiveInt, decimalValue_toString, Option.map_some] at h
  exact Option.some.inj (Option.filter_eq_some_iff.mp h).1

theorem number_of_toPositiveInt {number id : ℕ}
    (h : toPositiveInt app (.number number) = some id) : number = id := by
  simpa [toPositiveInt] using (Option.ite_none_right_eq_some.mp h).2

/-- A BIGINT column with the id of a row that has the property. -/
theorem entryNames_bigint (hreads : ReadsApart app good)
    (hrule : (ruleOf key).map FkRule.entity = some entity)
    (hgood : good entity number) :
    EntryNames app good container (key, bigintJson number) := by
  intro named id hnames
  obtain rfl := entity_of_names hrule hnames
  obtain ⟨rule, -, -, hid⟩ := hnames
  by_contra hbad
  obtain rfl := hreads _ id hbad number (nearestNumber_of_bigint hid)
  exact hbad hgood

theorem entryNames_number
    (hrule : (ruleOf key).map FkRule.entity = some entity)
    (hgood : good entity number) :
    EntryNames app good container (key, .number number) := by
  intro named id hnames
  obtain rfl := entity_of_names hrule hnames
  obtain ⟨rule, -, -, hid⟩ := hnames
  exact number_of_toPositiveInt hid ▸ hgood

theorem entryNames_nullable {id : Option ℕ} (hreads : ReadsApart app good)
    (hrule : (ruleOf key).map FkRule.entity = some entity)
    (hgood : ∀ number, id = some number → good entity number) :
    EntryNames app good container (key, nullable bigintJson id) := by
  cases id with
  | none =>
      rintro entity id ⟨rule, -, -, hid⟩
      contradiction
  | some number => exact entryNames_bigint hreads hrule (hgood number rfl)

end Entries

/-! ## Values -/

section Values

variable {app : RelationsDeployment} {good : Option EntityType → ℕ → Prop}

theorem namesOnly_leaf {json : Json} (hleaf : json.entries = []) :
    NamesOnly app good json := by
  intro entry hentry
  rw [hleaf] at hentry
  contradiction

@[simp] theorem namesOnly_null : NamesOnly app good .null := namesOnly_leaf rfl

@[simp] theorem namesOnly_bool (value : Bool) :
    NamesOnly app good (.bool value) := namesOnly_leaf rfl

@[simp] theorem namesOnly_number (value : ℚ) :
    NamesOnly app good (.number value) := namesOnly_leaf rfl

@[simp] theorem namesOnly_text (value : String) :
    NamesOnly app good (.text value) := namesOnly_leaf rfl

@[simp] theorem namesOnly_bigint (value : ℕ) :
    NamesOnly app good (bigintJson value) := namesOnly_leaf rfl

@[simp] theorem namesOnly_count (count : ℕ) :
    NamesOnly app good (countJson count) := namesOnly_leaf rfl

@[simp] theorem namesOnly_timestamp {deployment : RelationsDeployment}
    (time : ℕ) : NamesOnly app good (timestampJson deployment time) :=
  namesOnly_leaf rfl

@[simp] theorem namesOnly_iso {deployment : HttpDeployment} (time : ℕ) :
    NamesOnly app good (isoJson deployment time) := namesOnly_leaf rfl

@[simp] theorem namesOnly_fileOwner (ownerType : Trade.OwnerType) :
    NamesOnly app good (fileOwnerJson ownerType) := namesOnly_leaf rfl

@[simp] theorem namesOnly_nullable {α : Type} {json : α → Json}
    {value : Option α}
    (hjson : ∀ other, value = some other → NamesOnly app good (json other)) :
    NamesOnly app good (nullable json value) := by
  cases value with
  | none => exact namesOnly_null
  | some other => exact hjson other rfl

theorem namesOnly_array {α : Type} {json : α → Json} {items : List α}
    (hitems : ∀ item ∈ items, NamesOnly app good (json item)) :
    NamesOnly app good (.array (items.map json)) := by
  refine Json.each_array_iff.mpr fun value hvalue => ?_
  obtain ⟨item, hitem, rfl⟩ := List.mem_map.mp hvalue
  exact hitems item hitem

/-- Besides its plain keys, an object may have keys that name what has the
property. -/
theorem namesOnly_object {fields : List (String × Json)}
    (hentries : ∀ field ∈ fields,
      ((ruleOf field.1).isNone ∨ EntryNames app good fields field) ∧
        NamesOnly app good field.2) :
    NamesOnly app good (.object fields) := by
  refine Json.each_object_iff.mpr ⟨fun field hfield => ?_, fun field hfield =>
    (hentries field hfield).2⟩
  exact (hentries field hfield).1.elim entryNames_of_plain id

theorem namesOnly_field {key : String} {value : Json}
    (hplain : (ruleOf key).isNone) (hvalue : NamesOnly app good value) :
    NamesOnly app good (.object [(key, value)]) := by
  refine namesOnly_object fun field hfield => ?_
  obtain rfl := List.mem_singleton.mp hfield
  exact ⟨.inl hplain, hvalue⟩

end Values

/-! ## Bodies -/

section Bodies

variable {app : HttpDeployment} {good : Option EntityType → ℕ → Prop}

local instance : Coe HttpDeployment RelationsDeployment :=
  ⟨HttpDeployment.toRelationsDeployment⟩

theorem namesOnly_avatarView (view : Trade.AvatarView) :
    NamesOnly app good (avatarViewJson app view) := by
  refine namesOnly_object ?_
  simp +decide

theorem namesOnly_me (view : Trade.MeView) :
    NamesOnly app good (meJson app view) := by
  refine namesOnly_object ?_
  simp +decide [appUserFields, namesOnly_avatarView]

theorem namesOnly_publicUser (view : Trade.PublicProfileView) :
    NamesOnly app good (publicUserJson app view) := by
  refine namesOnly_object ?_
  simp +decide [appUserFields, namesOnly_avatarView]

theorem namesOnly_productStatus (row : Trade.ProductRow) :
    NamesOnly app good (productStatusJson app row) := by
  refine namesOnly_object ?_
  simp +decide

theorem namesOnly_markedUploaded (view : Trade.MarkedUploadedView) :
    NamesOnly app good (markedUploadedJson view) := by
  refine namesOnly_field (by decide) (namesOnly_object ?_)
  simp +decide

theorem namesOnly_uploadIntent {view : Trade.UploadIntentView}
    (hsigned : SignedUpload view.upload) :
    NamesOnly app good (uploadIntentJson view) := by
  obtain ⟨hheaders, fields, hfields, hkeys⟩ := hsigned
  have hrecord : NamesOnly app.toRelationsDeployment good
      (recordJson fields) := by
    refine namesOnly_object fun field hfield => ?_
    obtain ⟨entry, hentry, rfl⟩ := List.mem_map.mp hfield
    have hkey : entry.1 ∈ fields.map Prod.fst := List.mem_map_of_mem hentry
    rw [hkeys] at hkey
    refine ⟨.inl ?_, namesOnly_text entry.2⟩
    have hplain : ∀ key ∈ ["api_key", "public_id", "timestamp", "signature"],
        (ruleOf key).isNone := by decide +kernel
    exact hplain _ hkey
  have hupload : NamesOnly app.toRelationsDeployment good
      (uploadJson view.upload) := by
    refine namesOnly_object ?_
    simp +decide [hheaders, hfields, hrecord]
  have hfile : NamesOnly app.toRelationsDeployment good (.object
      [("id", bigintJson view.id), ("objectKey", .text view.objectKey),
        ("status", .text "pending")]) := by
    refine namesOnly_object ?_
    simp +decide
  refine namesOnly_object ?_
  simp +decide [hfile, hupload]

variable (hreads : ReadsApart app good)

include hreads

theorem namesOnly_fileView {view : Trade.FileView}
    (hnames : ∀ uploader, view.row.uploaderUserId = some uploader →
      good (some .user) uploader) :
    NamesOnly app good (fileViewJson app view) := by
  have huploader : ∀ container, EntryNames app.toRelationsDeployment good
      container ("uploader_user_id",
        nullable bigintJson view.row.uploaderUserId) :=
    fun container => entryNames_nullable hreads rfl hnames
  refine namesOnly_object ?_
  -- The file's own id of its owner stands beside an `owner_type`.
  simp +decide [huploader, entryNames_ownerId, hasOwn]

theorem namesOnly_messageView {view : Trade.MessageView}
    (hnames : MessageNames good view) :
    NamesOnly app good (messageViewJson app view) := by
  have hconversation : ∀ container, EntryNames app.toRelationsDeployment good
      container ("conversation_id", bigintJson view.conversationId) :=
    fun container => entryNames_bigint hreads rfl hnames.1
  have hsender : ∀ container, EntryNames app.toRelationsDeployment good
      container ("sender_id", bigintJson view.senderId) :=
    fun container => entryNames_bigint hreads rfl hnames.2
  refine namesOnly_object ?_
  simp +decide [hconversation, hsender]

theorem namesOnly_rating {row : Trade.RatingRow}
    (hnames : good (some .user) row.raterId ∧
      good (some .user) row.ratedUserId) :
    NamesOnly app good (ratingJson row) := by
  have hrater : ∀ container, EntryNames app.toRelationsDeployment good
      container ("rater_id", bigintJson row.raterId) :=
    fun container => entryNames_bigint hreads rfl hnames.1
  have hrated : ∀ container, EntryNames app.toRelationsDeployment good
      container ("rated_user_id", bigintJson row.ratedUserId) :=
    fun container => entryNames_bigint hreads rfl hnames.2
  refine namesOnly_object ?_
  simp +decide [hrater, hrated]

theorem namesOnly_conversationView {view : Trade.ConversationView}
    (hnames : ConversationNames good view) :
    NamesOnly app good (conversationViewJson app view) := by
  have hpeer : ∀ container, EntryNames app.toRelationsDeployment good container
      ("peer_user_id", bigintJson view.peerUserId) :=
    fun container => entryNames_bigint hreads rfl hnames.peer
  have hproduct : ∀ container, EntryNames app.toRelationsDeployment good
      container ("product_id", nullable bigintJson view.productId) :=
    fun container => entryNames_nullable hreads rfl hnames.product
  have hmessage : ∀ container, EntryNames app.toRelationsDeployment good
      container ("last_message_id", nullable bigintJson view.lastMessageId) :=
    fun container => entryNames_nullable hreads rfl hnames.lastMessage
  have himage : ∀ container, EntryNames app.toRelationsDeployment good
      container ("product_image_file_id",
        nullable bigintJson view.productImageFileId) :=
    fun container => entryNames_nullable hreads rfl hnames.image
  refine namesOnly_object ?_
  simp +decide [hpeer, hproduct, hmessage, himage]

theorem namesOnly_productObject {row : Trade.ProductRow}
    {rest : List (String × Json)} (howner : good (some .user) row.ownerId)
    (hdetails : DetailsName good app row)
    (hrest : ∀ field ∈ rest, (ruleOf field.1).isNone ∧
      NamesOnly app good field.2) :
    NamesOnly app good (.object (productFields app row ++ rest)) := by
  have hvalue : NamesOnly app.toRelationsDeployment good
      (row.details.getD .null) := by
    cases hsome : row.details with
    | none => exact namesOnly_null
    | some details => exact hdetails details hsome
  have howned : ∀ container, EntryNames app.toRelationsDeployment good
      container ("owner_id", bigintJson row.ownerId) :=
    fun container => entryNames_bigint hreads rfl howner
  have hcolumns : ∀ field ∈ productFields app.toRelationsDeployment row,
      ((ruleOf field.1).isNone ∨
        ∀ container, EntryNames app.toRelationsDeployment good container
          field) ∧ NamesOnly app.toRelationsDeployment good field.2 := by
    simp +decide [productFields, hvalue, howned]
  refine namesOnly_object fun field hfield => ?_
  rcases List.mem_append.mp hfield with hcolumn | hother
  · exact ⟨(hcolumns field hcolumn).1.imp id fun h => h _,
      (hcolumns field hcolumn).2⟩
  · exact ⟨.inl (hrest field hother).1, (hrest field hother).2⟩

omit hreads in
theorem namesOnly_images {idJson : ℕ → Json} {images : List Trade.ImageView}
    (hid : ∀ id, NamesOnly app good (idJson id))
    (hfiles : ∀ image ∈ images, ∀ container,
      EntryNames app good container ("file_id", idJson image.fileId)) :
    NamesOnly app good (.array (images.map (imageJson idJson))) := by
  refine namesOnly_array fun image himage => namesOnly_object ?_
  simp +decide [hid, hfiles image himage]

theorem namesOnly_product {view : Trade.ProductView}
    (hnames : ProductNames good view.row view.images)
    (hdetails : DetailsName good app view.row) :
    NamesOnly app good (productJson app view) := by
  have himages : NamesOnly app.toRelationsDeployment good
      (.array (view.images.map (imageJson bigintJson))) :=
    namesOnly_images namesOnly_bigint fun image himage container =>
      entryNames_bigint hreads rfl (hnames.2 image himage)
  refine namesOnly_productObject hreads hnames.1 hdetails ?_
  simp +decide [himages]

/-- The rows of a list, with or without the favourites. -/
theorem namesOnly_listing {listing : Trade.ProductListing}
    (hnames : ProductNames good listing.row listing.images)
    (hdetails : DetailsName good app listing.row) :
    NamesOnly app good (listingJson app listing) ∧
      NamesOnly app good (myListingJson app listing) := by
  have himages : NamesOnly app.toRelationsDeployment good
      (.array (listing.images.map (imageJson fun id => .number id))) :=
    namesOnly_images (fun id => namesOnly_number id)
      fun image himage container => entryNames_number rfl (hnames.2 image himage)
  constructor
  · refine namesOnly_productObject hreads hnames.1 hdetails ?_
    simp +decide [himages]
  · refine namesOnly_productObject hreads hnames.1 hdetails ?_
    simp +decide [himages]

/-- All that a body names is named by the response, or by the details of its
products. -/
theorem namesOnly_httpBody {request : Trade.Request}
    {response : Trade.Response} (hnames : ResponseNames good response)
    (hdetails : ∀ row ∈ shownProducts response, DetailsName good app row) :
    NamesOnly app good (httpBody app request response) := by
  cases response <;> simp only [httpBody]
  case product product =>
      refine namesOnly_field (by decide) (namesOnly_nullable fun view hview => ?_)
      subst hview
      exact namesOnly_product hreads (hnames view rfl)
        (hdetails view.row (List.mem_singleton_self _))
  case productStatus row =>
      refine namesOnly_field (by decide) (namesOnly_nullable ?_)
      exact fun row _ => namesOnly_productStatus row
  case items items =>
      have hitems : ∀ item ∈ items,
          NamesOnly app.toRelationsDeployment good
            (listingJson app.toRelationsDeployment item) ∧
          NamesOnly app.toRelationsDeployment good (myListingJson app item) :=
        fun item hitem => namesOnly_listing hreads (hnames item hitem)
          (hdetails _ (List.mem_map_of_mem hitem))
      cases request with
      | listMyProducts actor dto status =>
          exact namesOnly_field (by decide)
            (namesOnly_array fun item hitem => (hitems item hitem).2)
      | _ =>
          exact namesOnly_field (by decide)
            (namesOnly_array fun item hitem => (hitems item hitem).1)
  case message text => exact namesOnly_field (by decide) (namesOnly_text text)
  case uploadIntent view => exact namesOnly_uploadIntent hnames
  case markedUploaded view => exact namesOnly_markedUploaded view
  case file view =>
      exact namesOnly_field (by decide) (namesOnly_fileView hreads hnames)
  case me view => exact namesOnly_field (by decide) (namesOnly_me view)
  case publicProfile view =>
      have hproducts : NamesOnly app.toRelationsDeployment good (.array
          (view.products.map (listingJson app.toRelationsDeployment))) := by
        refine namesOnly_array fun item hitem => ?_
        exact (namesOnly_listing hreads (hnames item hitem)
          (hdetails _ (List.mem_map_of_mem hitem))).1
      refine namesOnly_object ?_
      simp +decide [namesOnly_publicUser, hproducts]
  case rating row =>
      exact namesOnly_field (by decide) (namesOnly_rating hreads hnames)
  case conversation view =>
      exact namesOnly_field (by decide)
        (namesOnly_conversationView hreads hnames)
  case conversations views =>
      exact namesOnly_field (by decide) (namesOnly_array fun view hview =>
        namesOnly_conversationView hreads (hnames view hview))
  case messages views =>
      exact namesOnly_field (by decide) (namesOnly_array fun view hview =>
        namesOnly_messageView hreads (hnames view hview))
  case oneMessage view =>
      exact namesOnly_field (by decide) (namesOnly_messageView hreads hnames)

end Bodies

end MarketPlace.Relations
