import MarketPlace.GroupedJoins
import MarketPlace.MarketHistories

/-!
# The rate of a seller

Six queries compute the rate of a user, with different joins and groups.  Each
comes to the mean of the ratings that are stored of the user, and the stored
ones are the latest that each rater gave.
-/

namespace MarketPlace.Trade

open EventLog Interleaving Relational

variable (app : Deployment)

/-! ## The queries -/

/-- `COALESCE(ROUND(AVG(ur.rating_value)::numeric, 2), 0.00)` over what a group
has of user_ratings, in hundredths. -/
def averageRate (ratings : List (Option RatingRow)) : ℕ :=
  ((avg (ratings.map (Option.map RatingRow.ratingValue))).map
    roundHundredths).getD 0

/-- The columns of files that stand in GROUP BY. -/
structure GroupedFile where
  id : ℕ
  objectKey : String
  mimeType : String
  purpose : FilePurpose
  status : FileStatus
  createdAt : ℕ
  uploadedAt : Option ℕ
  deriving DecidableEq, Repr

def FileRow.grouped (file : FileRow) : GroupedFile :=
  ⟨file.id, file.objectKey, file.mimeType, file.purpose, file.status,
    file.createdAt, file.uploadedAt⟩

def buildAvatarFile
    (avatarFileId : Option ℕ) (file : Option FileRow) : Option AvatarView :=
  (truthy avatarFileId).bind fun _ => file.bind fun file =>
    if file.objectKey = "" then none
    else some
      { id := file.id
        purpose := file.purpose
        objectKey := file.objectKey
        mimeType := file.mimeType
        status := file.status
        createdAt := file.createdAt
        uploadedAt := file.uploadedAt
        url := buildReadUrl app file.objectKey file.mimeType }

namespace Database

/-- What the queries of UsersService group: users with their ratings, then with
their avatar files, for one user that is not deleted. -/
def profileGroups (db : Database) (userId : ℕ) :
    List (List ((ProfileRow × Option RatingRow) × Option FileRow)) :=
  let rated := leftJoin (fun user rating => rating.ratedUserId = user.id)
    db.users.rows db.userRatings.rows
  let joined := leftJoin
    (fun row file => row.1.avatarFileId = some file.id) rated db.files.rows
  groupBy (fun row => (row.1.1.id, row.2.map FileRow.grouped))
    (joined.filter fun row =>
      row.1.1.id = userId && row.1.1.deletedAt.isNone)

/-- The query of getMe. -/
def queryMe (userId : ℕ) (db : Database) : List MeView :=
  (db.profileGroups userId).filterMap fun group => group.head?.map fun row =>
    { user := mapToAppUser row.1.1
      rate := averageRate (group.map fun row => row.1.2)
      contactInfo := row.1.1.contactInfo
      avatar := buildAvatarFile app row.1.1.avatarFileId row.2 }

/-- The query of getPublicProfile. -/
def queryPublicUser (userId : ℕ) (db : Database) : List PublicUserView :=
  (db.profileGroups userId).filterMap fun group => group.head?.map fun row =>
    { user := mapToAppUser row.1.1
      createdAt := row.1.1.createdAt
      adsCount := db.adsCount row.1.1.id
      rate := averageRate (group.map fun row => row.1.2)
      contactInfo := row.1.1.contactInfo
      avatar := buildAvatarFile app row.1.1.avatarFileId row.2 }

/-- FkExpansionService.fetchUsers: here the avatar files are joined first. -/
def fetchUsers (ids : List ℕ) (db : Database) : List MeView :=
  let avatars := leftJoin (fun user file => user.avatarFileId = some file.id)
    db.users.rows db.files.rows
  let joined := leftJoin (fun row rating => rating.ratedUserId = row.1.id)
    avatars db.userRatings.rows
  let groups := groupBy (fun row => (row.1.1.id, row.1.2.map FileRow.grouped))
    (joined.filter fun row =>
      row.1.1.id ∈ ids && row.1.1.deletedAt.isNone)
  groups.filterMap fun group => group.head?.map fun row =>
    { user := mapToAppUser row.1.1
      rate := averageRate (group.map Prod.snd)
      contactInfo := row.1.1.contactInfo
      avatar := buildAvatarFile app row.1.1.avatarFileId row.1.2 }

end Database

/-- A product as FkExpansionService expands it. -/
structure ExpandedProduct where
  id : ℕ
  name : String
  price : ℕ
  status : ProductStatus
  city : String
  createdAt : ℕ
  owner : Option MeView
  deriving DecidableEq, Repr

namespace Database

/-- FkExpansionService.fetchProducts.  A deleted owner is null, and so is one
whose name is the empty text. -/
def fetchProducts (ids : List ℕ) (db : Database) : List ExpandedProduct :=
  let owned := leftJoin
    (fun product user =>
      some product.ownerId = some user.id && user.deletedAt.isNone)
    db.products.rows db.users.rows
  let avatars := leftJoin
    (fun row file => row.2.bind ProfileRow.avatarFileId = some file.id)
    owned db.files.rows
  let joined := leftJoin
    (fun row rating => some rating.ratedUserId = row.1.2.map ProfileRow.id)
    avatars db.userRatings.rows
  let groups := groupBy
    (fun row => (row.1.1.1.id, row.1.1.2.map ProfileRow.id,
      row.1.2.map FileRow.grouped))
    (joined.filter fun row =>
      row.1.1.1.id ∈ ids && row.1.1.1.deletedAt.isNone)
  groups.filterMap fun group => group.head?.map fun row =>
    { id := row.1.1.1.id
      name := row.1.1.1.name
      price := row.1.1.1.price
      status := row.1.1.1.status
      city := row.1.1.1.city
      createdAt := row.1.1.1.createdAt
      owner := (row.1.1.2.filter fun owner => owner.name ≠ "").map fun owner =>
        { user := ⟨row.1.1.1.ownerId, owner.name, owner.phone, owner.status⟩
          rate := averageRate (group.map Prod.snd)
          contactInfo := owner.contactInfo
          avatar := buildAvatarFile app owner.avatarFileId row.1.2 } }

/-- product_listing_view: the columns of the product and `seller_rate`. -/
def productListingView (db : Database) : List (ProductRow × ℕ) :=
  let joined := leftJoin
    (fun product rating => rating.ratedUserId = product.ownerId)
    db.products.rows db.userRatings.rows
  let groups := groupBy (fun row => row.1.id)
    (joined.filter fun row => row.1.deletedAt.isNone)
  groups.filterMap fun group => group.head?.map fun row =>
    (row.1, averageRate (group.map Prod.snd))

end Database

structure RatingSummary where
  avgRating : ℕ
  ratingsCount : ℕ
  deriving DecidableEq, Repr

/-- The first query of getUserRatingSummary, without groups. -/
def Database.userRatingSummary (db : Database) (userId : ℕ) : RatingSummary :=
  let ratings := db.userRatings.rows.filter fun row => row.ratedUserId = userId
  ⟨averageRate (ratings.map some), ratings.length⟩

/-! ## What the queries come to -/

/-- 0.00 without values and else their mean, in hundredths. -/
def meanRate (values : List ℕ) : ℕ :=
  if values = [] then 0 else roundHundredths (mean values)

theorem meanRate_of_perm {values values' : List ℕ} (h : values.Perm values') :
    meanRate values = meanRate values' := by
  have hmean : mean values = mean values' := by
    rw [mean, mean, h.sum_eq, h.length_eq]
  have hnil : values = [] ↔ values' = [] := by
    rw [← List.length_eq_zero_iff, h.length_eq, List.length_eq_zero_iff]
  simp only [meanRate, hmean, hnil]

theorem averageRate_eq (ratings : List (Option RatingRow)) :
    averageRate ratings =
      meanRate (ratings.reduceOption.map RatingRow.ratingValue) := by
  rw [averageRate, avg, meanRate, List.reduceOption_map]
  split <;> rfl

theorem Database.rateOf_eq (db : Database) (userId : ℕ) :
    db.rateOf userId = meanRate (db.ratingsOf userId) := by
  rw [rateOf, meanRate]
  split
  · next hnil => rw [hnil]; rfl
  · next hne => exact (roundHundredths_mean _ hne).symm

/-- The rows of user_ratings about a user. -/
def Database.ratingRowsOf (db : Database) (userId : ℕ) : List RatingRow :=
  db.userRatings.rows.filter fun row => row.ratedUserId = userId

section Beside

variable {α : Type} (db : Database) (row : α) (userId : ℕ)

/-- AVG over a group that is a row with its matches in user_ratings. -/
theorem Database.averageRate_beside :
    averageRate ((beside row (db.ratingRowsOf userId)).map Prod.snd) =
      db.rateOf userId := by
  rw [averageRate_eq, reduceOption_beside, rateOf_eq]
  rfl

end Beside

namespace Database

variable (db : Database)

/-- The file that is joined to a user. -/
def avatarFile (user : ProfileRow) : Option FileRow :=
  user.avatarFileId.bind db.files.get

theorem filter_avatarFile (reference : Option ℕ) :
    (db.files.rows.filter fun file => reference = some file.id) =
      (reference.bind db.files.get).toList := by
  have hfound := db.files.filter_reference reference fun _ => true
  simp only [Bool.and_true] at hfound
  rw [hfound]
  cases reference.bind db.files.get <;> rfl

theorem avatarOf_eq (user : ProfileRow) :
    avatarOf app db user =
      buildAvatarFile app user.avatarFileId (db.avatarFile user) := by
  rw [avatarOf, buildAvatarFile, avatarFile]
  cases user.avatarFileId with
  | none => rfl
  | some fileId =>
      by_cases hzero : fileId = 0
      · have htruthy : truthy (some fileId) = none := by simp [truthy, hzero]
        rw [htruthy]
        rfl
      · have htruthy : truthy (some fileId) = some fileId := by
          simp [truthy, hzero]
        rw [htruthy]
        rfl

theorem filter_liveUser (userId : ℕ) :
    (db.users.rows.filter fun user =>
      some userId = some user.id && user.deletedAt.isNone) =
      (db.liveUser userId).toList :=
  db.users.filter_reference (some userId) fun user => user.deletedAt.isNone

/-- The ratings of a user beside the user, with the avatar file. -/
theorem joined_avatars :
    leftJoin (fun row file => row.1.avatarFileId = some file.id)
      (leftJoin (fun user rating => rating.ratedUserId = user.id)
        db.users.rows db.userRatings.rows) db.files.rows =
      db.users.rows.flatMap fun user =>
        (beside user (db.ratingRowsOf user.id)).map fun row =>
          (row, db.avatarFile user) := by
  have hunique : ∀ row : ProfileRow × Option RatingRow,
      (db.files.rows.filter fun file => row.1.avatarFileId = some file.id) =
        (db.avatarFile row.1).toList :=
    fun row => db.filter_avatarFile row.1.avatarFileId
  rw [leftJoin_of_unique hunique, leftJoin, List.map_flatMap]
  refine List.flatMap_congr fun user _ => List.map_congr_left fun row hrow => ?_
  rw [fst_of_mem_beside hrow]

/-- One group for a live user, with all the ratings and the avatar file. -/
theorem profileGroups_eq (userId : ℕ) :
    db.profileGroups userId = (db.liveUser userId).toList.map fun user =>
      (beside user (db.ratingRowsOf user.id)).map fun row =>
        (row, db.avatarFile user) := by
  rw [profileGroups, joined_avatars, ← filter_liveUser]
  refine db.users.groupBy_flatMap
    (fun user => (user.id, (db.avatarFile user).map FileRow.grouped))
    Prod.fst (fun user => rfl) (fun user => ?_) (fun user joined hjoined => ?_)
    fun user joined hjoined => ?_
  · exact mt List.map_eq_nil_iff.mp (beside_ne_nil _ _)
  · obtain ⟨row, hrow, rfl⟩ := List.mem_map.mp hjoined
    rw [fst_of_mem_beside hrow]
    simp only [Option.some.injEq, eq_comm]
  · obtain ⟨row, hrow, rfl⟩ := List.mem_map.mp hjoined
    rw [fst_of_mem_beside hrow]

theorem queryMe_eq (userId : ℕ) :
    db.queryMe app userId =
      ((db.liveUser userId).map (meView app db)).toList := by
  rw [queryMe, profileGroups_eq]
  cases db.liveUser userId with
  | none => rfl
  | some user =>
      simp only [Option.toList_some, List.map_cons, List.map_nil,
        List.filterMap_cons, List.filterMap_nil, List.head?_map, head?_beside,
        Option.map_some, List.map_map]
      rw [meView, avatarOf_eq, ← averageRate_beside db user]
      rfl

theorem queryPublicUser_eq (userId : ℕ) :
    db.queryPublicUser app userId =
      ((db.liveUser userId).map (publicUserView app db)).toList := by
  rw [queryPublicUser, profileGroups_eq]
  cases db.liveUser userId with
  | none => rfl
  | some user =>
      simp only [Option.toList_some, List.map_cons, List.map_nil,
        List.filterMap_cons, List.filterMap_nil, List.head?_map, head?_beside,
        Option.map_some, List.map_map]
      rw [publicUserView, avatarOf_eq, ← averageRate_beside db user]
      rfl

theorem fetchUsers_eq (ids : List ℕ) :
    db.fetchUsers app ids =
      (db.users.rows.filter fun user =>
        user.id ∈ ids && user.deletedAt.isNone).map (meView app db) := by
  have hjoined : leftJoin (fun row rating => rating.ratedUserId = row.1.id)
      (leftJoin (fun user file => user.avatarFileId = some file.id)
        db.users.rows db.files.rows) db.userRatings.rows =
      db.users.rows.flatMap fun user =>
        beside (user, db.avatarFile user) (db.ratingRowsOf user.id) := by
    rw [leftJoin_of_unique fun user : ProfileRow =>
      db.filter_avatarFile user.avatarFileId, leftJoin, List.flatMap_map]
    rfl
  have hgroups : groupBy
      (fun row : (ProfileRow × Option FileRow) × Option RatingRow =>
        (row.1.1.id, row.1.2.map FileRow.grouped))
      ((db.users.rows.flatMap fun user =>
        beside (user, db.avatarFile user) (db.ratingRowsOf user.id)).filter
          fun row => row.1.1.id ∈ ids && row.1.1.deletedAt.isNone) =
      (db.users.rows.filter fun user =>
        user.id ∈ ids && user.deletedAt.isNone).map fun user =>
          beside (user, db.avatarFile user) (db.ratingRowsOf user.id) :=
    db.users.groupBy_flatMap
      (fun user => (user.id, (db.avatarFile user).map FileRow.grouped))
      Prod.fst (fun user => rfl) (fun user => beside_ne_nil _ _)
      (fun user joined hjoined => by rw [fst_of_mem_beside hjoined])
      fun user joined hjoined => by rw [fst_of_mem_beside hjoined]
  rw [fetchUsers, hjoined, hgroups, List.filterMap_map]
  refine (List.filterMap_congr fun user _ => ?_).trans
    (congrFun List.filterMap_eq_map _)
  rw [Function.comp_apply, head?_beside, Option.map_some, Function.comp_apply,
    averageRate_beside, meView, avatarOf_eq]

/-- The owner of a product as FkExpansionService expands it. -/
def expandedOwner (db : Database) (ownerId : ℕ) : Option MeView :=
  ((db.liveUser ownerId).filter fun owner => owner.name ≠ "").map
    (meView app db)

def expandedProduct (db : Database) (product : ProductRow) : ExpandedProduct :=
  ⟨product.id, product.name, product.price, product.status, product.city,
    product.createdAt, db.expandedOwner app product.ownerId⟩

/-- The avatar file of a product's owner, if there is a live one. -/
def ownerAvatarFile (db : Database) (ownerId : ℕ) : Option FileRow :=
  (db.liveUser ownerId).bind db.avatarFile

/-- The ratings that are joined to a product's live owner. -/
def ownerRatings (db : Database) (ownerId : ℕ) : List RatingRow :=
  db.userRatings.rows.filter fun rating =>
    some rating.ratedUserId = (db.liveUser ownerId).map ProfileRow.id

theorem joined_owners :
    leftJoin
      (fun row rating => some rating.ratedUserId = row.1.2.map ProfileRow.id)
      (leftJoin
        (fun row file => row.2.bind ProfileRow.avatarFileId = some file.id)
        (leftJoin
          (fun product user =>
            some product.ownerId = some user.id && user.deletedAt.isNone)
          db.products.rows db.users.rows)
        db.files.rows)
      db.userRatings.rows =
    db.products.rows.flatMap fun product =>
      beside ((product, db.liveUser product.ownerId),
        db.ownerAvatarFile product.ownerId) (db.ownerRatings product.ownerId) := by
  have hfile : ∀ row : ProductRow × Option ProfileRow,
      (db.files.rows.filter fun file =>
        row.2.bind ProfileRow.avatarFileId = some file.id) =
        (row.2.bind db.avatarFile).toList := by
    intro row
    rw [filter_avatarFile]
    cases row.2 <;> rfl
  rw [leftJoin_of_unique fun product : ProductRow =>
      db.filter_liveUser product.ownerId,
    leftJoin_of_unique hfile, List.map_map, leftJoin, List.flatMap_map]
  rfl

theorem fetchProducts_eq (ids : List ℕ) :
    db.fetchProducts app ids =
      (db.products.rows.filter fun product =>
        product.id ∈ ids && product.deletedAt.isNone).map
          (db.expandedProduct app) := by
  have hgroups : groupBy
      (fun row : ((ProductRow × Option ProfileRow) × Option FileRow) ×
          Option RatingRow =>
        (row.1.1.1.id, row.1.1.2.map ProfileRow.id,
          row.1.2.map FileRow.grouped))
      ((db.products.rows.flatMap fun product =>
        beside ((product, db.liveUser product.ownerId),
          db.ownerAvatarFile product.ownerId)
          (db.ownerRatings product.ownerId)).filter fun row =>
            row.1.1.1.id ∈ ids && row.1.1.1.deletedAt.isNone) =
      (db.products.rows.filter fun product =>
        product.id ∈ ids && product.deletedAt.isNone).map fun product =>
          beside ((product, db.liveUser product.ownerId),
            db.ownerAvatarFile product.ownerId)
            (db.ownerRatings product.ownerId) :=
    db.products.groupBy_flatMap
      (fun product => (product.id,
        (db.liveUser product.ownerId).map ProfileRow.id,
        (db.ownerAvatarFile product.ownerId).map FileRow.grouped))
      Prod.fst (fun product => rfl) (fun product => beside_ne_nil _ _)
      (fun product joined hjoined => by rw [fst_of_mem_beside hjoined])
      fun product joined hjoined => by rw [fst_of_mem_beside hjoined]
  rw [fetchProducts, joined_owners, hgroups, List.filterMap_map]
  refine (List.filterMap_congr fun product _ => ?_).trans
    (congrFun List.filterMap_eq_map _)
  rw [Function.comp_apply, head?_beside, Option.map_some, Function.comp_apply,
    expandedProduct, expandedOwner]
  congr 2
  rw [ownerAvatarFile, ownerRatings]
  cases hlive : db.liveUser product.ownerId with
  | none => rfl
  | some owner =>
      have hid : owner.id = product.ownerId :=
        Table.key_of_get (Option.filter_eq_some_iff.mp hlive).1
      have hratings : (db.userRatings.rows.filter fun rating =>
          some rating.ratedUserId = (some owner).map ProfileRow.id) =
          db.ratingRowsOf owner.id := by
        simp only [Option.map_some, Option.some.injEq]
        rfl
      rw [hratings, averageRate_beside]
      by_cases hname : owner.name = ""
      · simp [Option.filter, hname]
      · simp [Option.filter, hname, meView, mapToAppUser, avatarOf_eq, hid]

theorem productListingView_eq :
    db.productListingView =
      db.listedProducts.map fun product =>
        (product, db.rateOf product.ownerId) := by
  have hgroups : groupBy (fun row : ProductRow × Option RatingRow => row.1.id)
      ((leftJoin (fun product rating => rating.ratedUserId = product.ownerId)
        db.products.rows db.userRatings.rows).filter fun row =>
          row.1.deletedAt.isNone) =
      (db.products.rows.filter fun product => product.deletedAt.isNone).map
        fun product => beside product (db.ratingRowsOf product.ownerId) :=
    db.products.groupBy_flatMap ProductRow.id id (fun product => rfl)
      (fun product => beside_ne_nil _ _)
      (fun product joined hjoined => by rw [fst_of_mem_beside hjoined])
      fun product joined hjoined => by rw [fst_of_mem_beside hjoined]
  rw [productListingView, hgroups, List.filterMap_map]
  refine (List.filterMap_congr fun product _ => ?_).trans
    (congrFun List.filterMap_eq_map _)
  rw [Function.comp_apply, head?_beside, Option.map_some, Function.comp_apply,
    averageRate_beside]

theorem userRatingSummary_eq (userId : ℕ) :
    db.userRatingSummary userId =
      ⟨db.rateOf userId, (db.ratingsOf userId).length⟩ := by
  have hsome : ∀ rows : List RatingRow,
      (rows.map some).reduceOption = rows := by
    intro rows
    induction rows with
    | nil => rfl
    | cons row rows ih =>
        rw [List.map_cons, List.reduceOption_cons_of_some, ih]
  rw [userRatingSummary, averageRate_eq, hsome, rateOf_eq, ratingsOf,
    List.length_map]

end Database

/-! ## The latest ratings -/

/-- The rating that an event gives. -/
def Event.rating (event : Event) : Option RatingRow :=
  event.change.bind fun change =>
    match change with
    | .upsertRating row => some row
    | _ => none

/-- The value that a rater gave a user last. -/
def latestValue (history : List Event) (raterId ratedUserId : ℕ) : Option ℕ :=
  ((history.filterMap Event.rating).find? fun row =>
    row.key = (raterId, ratedUserId)).map RatingRow.ratingValue

/-- Everybody who rated a user, once. -/
def ratersOf (history : List Event) (ratedUserId : ℕ) : List ℕ :=
  (((history.filterMap Event.rating).filter fun row =>
    row.ratedUserId = ratedUserId).map RatingRow.raterId).dedup

/-- The latest value of each distinct rater of a user. -/
def latestValues (history : List Event) (ratedUserId : ℕ) : List ℕ :=
  (ratersOf history ratedUserId).filterMap fun raterId =>
    latestValue history raterId ratedUserId

theorem Event.rating_eq_some {event : Event} {row : RatingRow}
    (h : event.rating = some row) : event.change = some (.upsertRating row) := by
  obtain ⟨change, hchange, hrow⟩ := Option.bind_eq_some_iff.mp h
  cases change with
  | upsertRating other =>
      obtain rfl := Option.some.inj hrow
      exact hchange
  | _ => contradiction

/-- A later rating replaces the stored one of the same two users. -/
theorem Database.userRatings_apply_upsertRating (db : Database)
    (row : RatingRow) (key : ℕ × ℕ) :
    (db.apply (.upsertRating row)).userRatings.get key =
      if row.key = key then some row else db.userRatings.get key := by
  split
  · next hkey =>
      subst hkey
      refine (Table.get_upsert_self _ _ _ _).trans (congrArg some ?_)
      cases hold : db.userRatings.get row.key with
      | none => rfl
      | some old =>
          have hkey : old.key = row.key := Table.key_of_get hold
          obtain ⟨hrater, hrated⟩ := Prod.mk.inj hkey
          rw [Option.elim_some, hrater, hrated]
  · next hkey => exact Table.get_upsert_of_ne hkey

/-- The stored rating of two users is the latest that the history has. -/
theorem userRatings_stored (history : List Event) (key : ℕ × ℕ) :
    (stored .empty history).userRatings.get key =
      (history.filterMap Event.rating).find? fun row => row.key = key := by
  induction history with
  | nil => rfl
  | cons event history ih =>
      rw [stored_cons]
      cases hrating : event.rating with
      | some row =>
          rw [Event.effect_of_change (Event.rating_eq_some hrating),
            Database.userRatings_apply_upsertRating,
            List.filterMap_cons_some hrating, List.find?_cons, ih]
          by_cases hkey : row.key = key <;> simp [hkey]
      | none =>
          rw [List.filterMap_cons_none hrating, ← ih]
          cases hchange : event.change with
          | none => rw [Event.effect_of_change_eq_none hchange]
          | some change =>
              rw [Event.effect_of_change hchange]
              rw [Event.rating, hchange] at hrating
              cases change with
              | upsertRating row => contradiction
              | _ => rfl

section Stored

variable {db : Database} {history : List Event}
  (hstored : ∀ key, db.userRatings.get key =
    (history.filterMap Event.rating).find? fun row => row.key = key)

include hstored

theorem ratingRowsOf_raters (userId : ℕ) :
    ((db.ratingRowsOf userId).map RatingRow.raterId).Perm
      (ratersOf history userId) := by
  have hkeys : ((db.ratingRowsOf userId).map RatingRow.key).Nodup :=
    (db.userRatings.filter fun row => row.ratedUserId = userId).keys_nodup
  have hraters : ((db.ratingRowsOf userId).map RatingRow.raterId).Nodup := by
    apply List.Nodup.of_map fun raterId => (raterId, userId)
    rw [List.map_map]
    have hsame : (db.ratingRowsOf userId).map RatingRow.key =
        (db.ratingRowsOf userId).map
          ((fun raterId => (raterId, userId)) ∘ RatingRow.raterId) := by
      refine List.map_congr_left fun row hrow => ?_
      have hrated := of_decide_eq_true (List.mem_filter.mp hrow).2
      rw [RatingRow.key, Function.comp_apply, hrated]
    rwa [← hsame]
  refine (List.perm_ext_iff_of_nodup hraters (List.nodup_dedup _)).mpr
    fun raterId => ?_
  rw [List.mem_dedup, List.mem_map, List.mem_map]
  constructor
  · rintro ⟨row, hrow, rfl⟩
    obtain ⟨hmem, hrated⟩ := List.mem_filter.mp hrow
    have hfind := (hstored row.key).symm.trans (Table.get_of_mem hmem)
    exact ⟨row, List.mem_filter.mpr
      ⟨List.mem_of_find?_eq_some hfind, hrated⟩, rfl⟩
  · rintro ⟨row, hrow, rfl⟩
    obtain ⟨hmem, hrated⟩ := List.mem_filter.mp hrow
    have hsome : (db.userRatings.get row.key).isSome = true := by
      rw [hstored, List.find?_isSome]
      exact ⟨row, hmem, by simp⟩
    obtain ⟨other, hother⟩ := Option.isSome_iff_exists.mp hsome
    have hkey : other.key = row.key := Table.key_of_get hother
    obtain ⟨hrater, hrated'⟩ := Prod.mk.inj hkey
    refine ⟨other, List.mem_filter.mpr ⟨Table.mem_of_get hother, ?_⟩, hrater⟩
    rw [hrated']
    exact hrated

/-- The stored values of a user are the latest of each rater. -/
theorem ratingsOf_perm_latestValues (userId : ℕ) :
    (db.ratingsOf userId).Perm (latestValues history userId) := by
  have hvalue : ∀ row ∈ db.ratingRowsOf userId,
      latestValue history row.raterId userId = some row.ratingValue := by
    intro row hrow
    obtain ⟨hmem, hrated⟩ := List.mem_filter.mp hrow
    have hkey : row.key = (row.raterId, userId) := by
      rw [RatingRow.key, of_decide_eq_true hrated]
    rw [latestValue, ← hstored, ← hkey, Table.get_of_mem hmem, Option.map_some]
  have hmap : db.ratingsOf userId =
      ((db.ratingRowsOf userId).map RatingRow.raterId).filterMap
        fun raterId => latestValue history raterId userId := by
    rw [List.filterMap_map, Database.ratingsOf]
    exact ((List.filterMap_congr hvalue).trans
      (congrFun List.filterMap_eq_map _)).symm
  rw [hmap]
  exact (ratingRowsOf_raters hstored userId).filterMap _

end Stored

theorem violation_upsertRating_eq_none {db : Database} {row : RatingRow}
    (h : db.violation (.upsertRating row) = none) :
    1 ≤ row.ratingValue ∧ row.ratingValue ≤ 5 := by
  simp only [Database.violation] at h
  split at h
  · contradiction
  · next hcheck => exact not_not.mp (not_or.mp hcheck).1

/-- No stored rating is outside the CHECK. -/
theorem rating_within_of_warranted {m : Market} (h : Warranted m)
    {row : RatingRow} (hrow : row ∈ m.history.filterMap Event.rating) :
    1 ≤ row.ratingValue ∧ row.ratingValue ≤ 5 := by
  obtain ⟨event, hevent, hrating⟩ := List.mem_filterMap.mp hrow
  obtain ⟨past, hhappened⟩ := exists_happened hevent
  have hwarranted : Change.Warranted _ (.upsertRating row) :=
    h event past hhappened _ (Event.rating_eq_some hrating)
  exact violation_upsertRating_eq_none
    (hwarranted.resolve_left Bool.false_ne_true)

theorem latestValues_within {m : Market} (h : Warranted m) (userId : ℕ) :
    ∀ value ∈ latestValues m.history userId, 1 ≤ value ∧ value ≤ 5 := by
  intro value hvalue
  obtain ⟨raterId, -, hlatest⟩ := List.mem_filterMap.mp hvalue
  obtain ⟨row, hfind, rfl⟩ := Option.map_eq_some_iff.mp hlatest
  exact rating_within_of_warranted h (List.mem_of_find?_eq_some hfind)

theorem meanRate_within {values : List ℕ} (hne : values ≠ [])
    (hwithin : ∀ value ∈ values, 1 ≤ value ∧ value ≤ 5) :
    100 ≤ meanRate values ∧ meanRate values ≤ 500 := by
  obtain ⟨hlow, hhigh⟩ := mean_mem hne hwithin
  rw [meanRate, if_neg hne]
  exact ⟨(roundHundredths_natCast 1).symm.le.trans (roundHundredths_mono hlow),
    (roundHundredths_mono hhigh).trans (roundHundredths_natCast 5).le⟩

/-! ## Runs -/

/-- All that show a rate of the user show this one, and all but the records of
products show one at all. -/
structure Database.ShowsRate
    (app : Deployment) (db : Database) (userId rate : ℕ) : Prop where
  me : ∃ view, db.queryMe app userId = [view] ∧ view.rate = rate
  publicProfile :
    ∃ view, db.queryPublicUser app userId = [view] ∧ view.rate = rate
  expandedUser : ∀ ids, userId ∈ ids →
    ∃ view ∈ db.fetchUsers app ids, view.user.id = userId
  expandedUsers : ∀ ids, ∀ view ∈ db.fetchUsers app ids,
    view.user.id = userId → view.rate = rate
  expandedOwners : ∀ ids, ∀ product ∈ db.fetchProducts app ids,
    ∀ owner, product.owner = some owner → owner.user.id = userId →
      owner.rate = rate
  listing : ∀ product ∈ db.products.rows, product.deletedAt = none →
    product.ownerId = userId → (product, rate) ∈ db.productListingView
  listed : ∀ listing ∈ db.productListingView, listing.1.ownerId = userId →
    listing.2 = rate
  summary : (db.userRatingSummary userId).avgRating = rate

theorem Database.showsRate (app : Deployment) (db : Database) {userId : ℕ}
    {user : ProfileRow} (hlive : db.liveUser userId = some user) :
    db.ShowsRate app userId (db.rateOf userId) := by
  obtain ⟨hget, hdeleted⟩ := Option.filter_eq_some_iff.mp hlive
  have hid : user.id = userId := Table.key_of_get hget
  constructor
  case me =>
    rw [queryMe_eq, hlive]
    exact ⟨meView app db user, rfl, congrArg db.rateOf hid⟩
  case publicProfile =>
    rw [queryPublicUser_eq, hlive]
    exact ⟨publicUserView app db user, rfl, congrArg db.rateOf hid⟩
  case expandedUser =>
    intro ids hmem
    rw [fetchUsers_eq]
    refine ⟨meView app db user, List.mem_map_of_mem (List.mem_filter.mpr
      ⟨Table.mem_of_get hget, ?_⟩), hid⟩
    rw [hid]
    simpa [hmem] using hdeleted
  case expandedUsers =>
    intro ids view hview huser
    rw [fetchUsers_eq] at hview
    obtain ⟨row, -, rfl⟩ := List.mem_map.mp hview
    exact congrArg db.rateOf huser
  case expandedOwners =>
    intro ids product hproduct owner howner huser
    rw [fetchProducts_eq] at hproduct
    obtain ⟨row, -, rfl⟩ := List.mem_map.mp hproduct
    obtain ⟨found, -, rfl⟩ := Option.map_eq_some_iff.mp howner
    exact congrArg db.rateOf huser
  case listing =>
    intro product hproduct hlisted howner
    rw [productListingView_eq, ← howner]
    exact List.mem_map_of_mem (f := fun product : ProductRow =>
      (product, db.rateOf product.ownerId))
      (List.mem_filter.mpr ⟨hproduct, by simp [hlisted]⟩)
  case listed =>
    intro listing hlisting howner
    rw [productListingView_eq] at hlisting
    obtain ⟨product, -, rfl⟩ := List.mem_map.mp hlisting
    exact congrArg db.rateOf howner
  case summary => rw [userRatingSummary_eq]

variable {app} {now : ℕ} {pool : Pool Request Draw Market Fault Response}

/-- In every reachable state every place shows the same rate of a live user:
0.00 if nobody rated the user, and otherwise the rounded mean of the latest
value of each rater, from 1.00 to 5.00. -/
theorem seller_rate_is_one_number
    (hreach : (market app).Reaches (fun _ _ => True) (Pool.opening now) pool)
    {userId : ℕ} {user : ProfileRow}
    (hlive : pool.state.db.liveUser userId = some user) :
    let values := latestValues pool.state.history userId
    ∃ rate, pool.state.db.ShowsRate app userId rate ∧
      (values = [] → rate = 0) ∧
      (values ≠ [] → rate = roundHundredths (mean values) ∧
        100 ≤ rate ∧ rate ≤ 500) := by
  intro values
  have hstored : ∀ key, pool.state.db.userRatings.get key =
      (pool.state.history.filterMap Event.rating).find? fun row =>
        row.key = key := by
    rw [traced_of_reaches hreach]
    exact userRatings_stored pool.state.history
  have hrate : pool.state.db.rateOf userId = meanRate values := by
    rw [Database.rateOf_eq]
    exact meanRate_of_perm (ratingsOf_perm_latestValues hstored userId)
  refine ⟨meanRate values, hrate ▸ pool.state.db.showsRate app hlive,
    fun hnil => if_pos hnil, fun hne => ⟨if_neg hne, ?_⟩⟩
  exact meanRate_within hne
    (latestValues_within (warranted_of_reaches hreach) userId)

/-- User 3 lists a product, and users 1 and 2 rate user 3, user 2 twice. -/
def ratesTwice : List (Move Request Draw Surroundings) :=
  [Move.environment (Surroundings.userRegisters "Amina" "+201"),
    Move.environment (Surroundings.userRegisters "Basil" "+202"),
    Move.environment (Surroundings.userRegisters "Celia" "+203"),
    Move.submit (Request.createProduct 3 sampleProduct)] ++
    List.replicate 6 (Move.advance 0 calmDraw) ++
    [Move.submit (Request.rateUser 1 3 5), Move.submit (Request.rateUser 2 3 1),
      Move.submit (Request.rateUser 2 3 2)] ++
    List.replicate 2 (Move.advance 1 calmDraw) ++
    List.replicate 2 (Move.advance 2 calmDraw) ++
    List.replicate 2 (Move.advance 3 calmDraw)

theorem seller_rate_is_one_number_rated :
    ∃ pool, (market sampleApp).Reaches (fun _ _ => True) (Pool.opening 0)
        pool ∧
      latestValues pool.state.history 3 = [2, 5] ∧
      (∃ product, pool.state.db.products.get 1 = some product ∧
        (product, 350) ∈ pool.state.db.productListingView) ∧
      pool.state.db.ShowsRate sampleApp 3 350 := by
  obtain ⟨pool, hreach, hcheck⟩ := System.exists_reaches_of_run
    (show ((market sampleApp).run ratesTwice (Pool.opening 0)).any
      (fun pool => (pool.state.db.liveUser 3).isSome &&
        latestValues pool.state.history 3 = [2, 5] &&
        (pool.state.db.products.get 1).any (fun product =>
          product.ownerId = 3 && product.deletedAt = none)) = true by
      decide +kernel)
  simp only [Bool.and_eq_true, decide_eq_true_eq, Option.any_eq_true] at hcheck
  obtain ⟨⟨hsome, hvalues⟩, product, hproduct, howner, hlisted⟩ := hcheck
  obtain ⟨user, hlive⟩ := Option.isSome_iff_exists.mp hsome
  obtain ⟨rate, hshows, -, hmean⟩ := seller_rate_is_one_number hreach hlive
  rw [hvalues] at hmean
  have hrate : rate = 350 :=
    (hmean (List.cons_ne_nil _ _)).1.trans
      (roundHundredths_mean [2, 5] (List.cons_ne_nil _ _))
  subst hrate
  exact ⟨pool, hreach, hvalues, ⟨product, hproduct,
    hshows.listing product (Table.mem_of_get hproduct) hlisted howner⟩, hshows⟩

end MarketPlace.Trade
