import CopaNgscope.MarkovianCCAccepted
import CopaNgscope.TrafficParams
import CopaNgscope.WhiskerTreeDna

/-! The program `sender`: its command line decides which controller is started, and with which
settings. Only the rule file of RemyCC is read while the arguments are. -/
namespace CopaNgscope

inductive CCType
  | remycc | tcpcc | kernelcc | pcc | nashcc | markoviancc
deriving DecidableEq

/-- What the loop over the arguments sets. With `linkLogging` the link is logged to a file. -/
structure SenderOptions where
  whiskers : WhiskerTree
  ratFound : Bool
  serverip : List Char
  serverport : ℤ
  sourceport : ℤ
  offduration : ℤ
  onduration : ℤ
  trafficParams : List Char
  deltaConf : List Char
  trainLength : ℤ
  cctype : CCType
  trainingLinkRate : Double
  linkLogging : Option (List Char)

def ccTypeNamed (cs : List Char) : Option CCType :=
  if cs = "remy".toList then some .remycc
  else if cs = "tcp".toList then some .tcpcc
  else if cs = "kernel".toList then some .kernelcc
  else if cs = "pcc".toList then some .pcc
  else if cs = "nash".toList then some .nashcc
  else if cs = "markovian".toList then some .markoviancc
  else none

/-- The settings before the loop. -/
def senderDefaults : SenderOptions where
  whiskers := .root
  ratFound := false
  serverip := "0.0".toList
  serverport := 9004
  sourceport := 9004
  offduration := 5000
  onduration := 5000
  trafficParams := []
  deltaConf := []
  trainLength := 1
  cctype := .remycc
  trainingLinkRate := toDouble (4000000/1500)
  linkLogging := none

/-- How the loop over the arguments can end the program: `exit( 1 )` or a failed assertion. -/
inductive SenderFailure
  | exits
  | aborts

section
variable (parse : List Char → Option RemyBuffers.WhiskerTree) (close : List Char → Bool)

/-- The rules of a file that is opened and parsed if it can be. The tree is constructed before the
file is closed. -/
def readRat (file : List Char) : Except SenderFailure WhiskerTree :=
  match parse file with
  | none => .error .exits
  | some tree => match WhiskerTree.ofDna tree with
    | none => .error .aborts
    | some whiskers => if close file then .ok whiskers else .error .exits

/-- One argument. -/
def takeOption (o : SenderOptions) (arg : List Char) : Except SenderFailure SenderOptions :=
  if arg.take 3 = "if=".toList then
    if o.cctype ≠ .remycc then .ok o
    else (readRat parse close (arg.drop 3)).map fun whiskers =>
      { o with whiskers := whiskers, ratFound := true }
  else if arg.take 9 = "serverip=".toList then .ok { o with serverip := arg.drop 9 }
  else if arg.take 11 = "serverport=".toList then .ok { o with serverport := atoi (arg.drop 11) }
  else if arg.take 11 = "sourceport=".toList then .ok { o with sourceport := atoi (arg.drop 11) }
  else if arg.take 12 = "offduration=".toList then
    .ok { o with offduration := atoi (arg.drop 12) }
  else if arg.take 11 = "onduration=".toList then .ok { o with onduration := atoi (arg.drop 11) }
  else if arg.take 9 = "linkrate=".toList then
    .ok { o with trainingLinkRate := Double.atof (arg.drop 9) }
  else if arg.take 8 = "linklog=".toList then .ok { o with linkLogging := some (arg.drop 8) }
  else if arg.take 15 = "traffic_params=".toList then
    .ok { o with trafficParams := arg.drop 15 }
  else if arg.take 11 = "delta_conf=".toList then .ok { o with deltaConf := arg.drop 11 }
  else if arg.take 13 = "train_length=".toList then
    .ok { o with trainLength := atoi (arg.drop 13) }
  else if arg.take 7 = "cctype=".toList then
    -- a name that is not known is only reported
    .ok { o with cctype := (ccTypeNamed (arg.drop 7)).getD o.cctype }
  else .ok o

/-- What the program comes to, with the settings that are used then. -/
inductive SenderStart
  | exits
  | aborts
  | remyCC (o : SenderOptions)
  | defaultCC (o : SenderOptions)
  | kernelTCP (o : SenderOptions)
  | copa (config : DoubleConfig) (o : SenderOptions)

/-- After the loop. Copa is constructed with a delta of 1; an exception of `stof` or `substr` is not
caught. -/
def senderStart (o : SenderOptions) : SenderStart :=
  if o.serverip = [] then .exits
  else if o.ratFound = false ∧ o.cctype = .remycc then .exits
  else match o.cctype with
    | .remycc => .remyCC o
    | .tcpcc => .defaultCC o
    | .kernelcc => .kernelTCP o
    | .pcc | .nashcc => .aborts
    | .markoviancc =>
      if o.deltaConf = [] then .aborts
      else match DoubleConfig.unconfigured.interpretConfigStr o.deltaConf with
        | .ok config => .copa config o
        | .error _ => .aborts

def senderMain (args : List (List Char)) : SenderStart :=
  match args.foldlM (takeOption parse close) senderDefaults with
  | .error .exits => .exits
  | .error .aborts => .aborts
  | .ok o => senderStart o

/-- An empty file is a message with neither leaf nor children. -/
example : senderMain (fun _ => some (.mk none [] none)) (fun _ => true)
    ["if=/dev/null".toList] = .aborts := rfl

/-! ### Arguments -/

/-- The value of an argument of a name. -/
def optionValue (name arg : List Char) : Option (List Char) :=
  if arg.take name.length = name then some (arg.drop name.length) else none

/-- The type that an argument names. -/
def ccTypeGiven (arg : List Char) : Option CCType :=
  (optionValue "cctype=".toList arg).bind ccTypeNamed

/-- What an argument sets, besides the rule file. -/
def SenderOptions.given (o : SenderOptions) (arg : List Char) (whiskers : WhiskerTree)
    (ratFound : Bool) : SenderOptions where
  whiskers := whiskers
  ratFound := ratFound
  serverip := (optionValue "serverip=".toList arg).getD o.serverip
  serverport := ((optionValue "serverport=".toList arg).map atoi).getD o.serverport
  sourceport := ((optionValue "sourceport=".toList arg).map atoi).getD o.sourceport
  offduration := ((optionValue "offduration=".toList arg).map atoi).getD o.offduration
  onduration := ((optionValue "onduration=".toList arg).map atoi).getD o.onduration
  trafficParams := (optionValue "traffic_params=".toList arg).getD o.trafficParams
  deltaConf := (optionValue "delta_conf=".toList arg).getD o.deltaConf
  trainLength := ((optionValue "train_length=".toList arg).map atoi).getD o.trainLength
  cctype := (ccTypeGiven arg).getD o.cctype
  trainingLinkRate :=
    ((optionValue "linkrate=".toList arg).map Double.atof).getD o.trainingLinkRate
  linkLogging := ((optionValue "linklog=".toList arg).map some).getD o.linkLogging

/-- A rule file is read while the type is that of RemyCC. -/
theorem takeOption_if (o : SenderOptions) (file : List Char) :
    takeOption parse close o ("if=".toList ++ file) =
      if o.cctype = .remycc then
        (readRat parse close file).map fun rat => { o with whiskers := rat, ratFound := true }
      else .ok o := by
  have hif : ("if=".toList ++ file).take 3 = "if=".toList := rfl
  have hdrop : ("if=".toList ++ file).drop 3 = file := rfl
  by_cases htype : o.cctype = .remycc
  · rw [if_pos htype, takeOption, if_pos hif, if_neg (not_not.mpr htype), hdrop]
  · rw [if_neg htype, takeOption, if_pos hif, if_pos htype]

/-- An argument sets the setting of its name, and the rule file while the type is that of
RemyCC. -/
theorem takeOption_eq (o : SenderOptions) (arg : List Char) : takeOption parse close o arg =
    ((if o.cctype = .remycc then optionValue "if=".toList arg else none).elim
      (.ok (o.whiskers, o.ratFound)) fun file => (readRat parse close file).map (·, true)).map
        fun r => o.given arg r.1 r.2 := by
  have hsplit {n : ℕ} {name : List Char} (h : arg.take n = name) : ∃ v, arg = name ++ v :=
    ⟨arg.drop n, by rw [← h, List.take_append_drop]⟩
  by_cases hif : arg.take 3 = "if=".toList
  · obtain ⟨v, rfl⟩ := hsplit hif
    have hvalue : optionValue "if=".toList ("if=".toList ++ v) = some v := rfl
    rw [takeOption_if]
    by_cases htype : o.cctype = .remycc
    · rw [if_pos htype, if_pos htype, hvalue, Option.elim_some]
      cases readRat parse close v with
      | error failure => rfl
      | ok whiskers => rfl
    · rw [if_neg htype, if_neg htype]
      rfl
  have hvalue : optionValue "if=".toList arg = none := if_neg hif
  rw [hvalue, ite_self, Option.elim_none]
  change _ = Except.ok (o.given arg o.whiskers o.ratFound)
  by_cases hserverip : arg.take 9 = "serverip=".toList
  · obtain ⟨v, rfl⟩ := hsplit hserverip
    rfl
  by_cases hserverport : arg.take 11 = "serverport=".toList
  · obtain ⟨v, rfl⟩ := hsplit hserverport
    rfl
  by_cases hsourceport : arg.take 11 = "sourceport=".toList
  · obtain ⟨v, rfl⟩ := hsplit hsourceport
    rfl
  by_cases hoffduration : arg.take 12 = "offduration=".toList
  · obtain ⟨v, rfl⟩ := hsplit hoffduration
    rfl
  by_cases honduration : arg.take 11 = "onduration=".toList
  · obtain ⟨v, rfl⟩ := hsplit honduration
    rfl
  by_cases hlinkrate : arg.take 9 = "linkrate=".toList
  · obtain ⟨v, rfl⟩ := hsplit hlinkrate
    rfl
  by_cases hlinklog : arg.take 8 = "linklog=".toList
  · obtain ⟨v, rfl⟩ := hsplit hlinklog
    rfl
  by_cases htrafficparams : arg.take 15 = "traffic_params=".toList
  · obtain ⟨v, rfl⟩ := hsplit htrafficparams
    rfl
  by_cases hdeltaconf : arg.take 11 = "delta_conf=".toList
  · obtain ⟨v, rfl⟩ := hsplit hdeltaconf
    rfl
  by_cases htrainlength : arg.take 13 = "train_length=".toList
  · obtain ⟨v, rfl⟩ := hsplit htrainlength
    rfl
  by_cases hcctype : arg.take 7 = "cctype=".toList
  · obtain ⟨v, rfl⟩ := hsplit hcctype
    rfl
  -- an argument without a known name is only reported
  have hnone (name : List Char) (h : arg.take name.length ≠ name) :
      optionValue name arg = none := if_neg h
  rw [takeOption, if_neg hif, if_neg hserverip, if_neg hserverport, if_neg hsourceport,
    if_neg hoffduration, if_neg honduration, if_neg hlinkrate, if_neg hlinklog,
    if_neg htrafficparams, if_neg hdeltaconf, if_neg htrainlength, if_neg hcctype,
    SenderOptions.given, ccTypeGiven, hnone "serverip=".toList hserverip,
    hnone "serverport=".toList hserverport,
    hnone "sourceport=".toList hsourceport, hnone "offduration=".toList hoffduration,
    hnone "onduration=".toList honduration, hnone "linkrate=".toList hlinkrate,
    hnone "linklog=".toList hlinklog, hnone "traffic_params=".toList htrafficparams,
    hnone "delta_conf=".toList hdeltaconf, hnone "train_length=".toList htrainlength,
    hnone "cctype=".toList hcctype]
  rfl

/-! ### Command lines -/

/-- The value of the last argument of a name, or the default. -/
def lastValue (name : List Char) (default : List Char) (args : List (List Char)) : List Char :=
  (args.filterMap (optionValue name)).getLastD default

def lastNumber (name : List Char) (default : ℤ) (args : List (List Char)) : ℤ :=
  (args.filterMap fun arg => (optionValue name arg).map atoi).getLastD default

/-- The last type that is known. -/
def lastType (args : List (List Char)) : CCType := (args.filterMap ccTypeGiven).getLastD .remycc

/-- The files of the arguments `if=` before which the last type is that of RemyCC. -/
def ratFiles (args : List (List Char)) : List (List Char) :=
  (List.range args.length).filterMap fun i =>
    if lastType (args.take i) = .remycc then args[i]?.bind (optionValue "if=".toList) else none

/-- What a command line asks for, with the rule files as they were read. -/
def askedFor (args : List (List Char)) (rats : List WhiskerTree) : SenderOptions where
  whiskers := rats.getLastD .root
  ratFound := !rats.isEmpty
  serverip := lastValue "serverip=".toList "0.0".toList args
  serverport := lastNumber "serverport=".toList 9004 args
  sourceport := lastNumber "sourceport=".toList 9004 args
  offduration := lastNumber "offduration=".toList 5000 args
  onduration := lastNumber "onduration=".toList 5000 args
  trafficParams := lastValue "traffic_params=".toList [] args
  deltaConf := lastValue "delta_conf=".toList [] args
  trainLength := lastNumber "train_length=".toList 1 args
  cctype := lastType args
  trainingLinkRate := (args.filterMap fun arg =>
    (optionValue "linkrate=".toList arg).map Double.atof).getLastD (toDouble (4000000/1500))
  linkLogging := (args.filterMap fun arg =>
    (optionValue "linklog=".toList arg).map some).getLastD none

/-- The last value with one more argument. -/
theorem getLastD_filterMap_concat {α β : Type*} (f : α → Option β) (xs : List α) (x : α) (b : β) :
    ((xs ++ [x]).filterMap f).getLastD b = (f x).getD ((xs.filterMap f).getLastD b) := by
  rw [List.filterMap_append]
  cases hx : f x with
  | none => rw [List.filterMap_cons_none hx, List.filterMap_nil, List.append_nil, Option.getD_none]
  | some y => rw [List.filterMap_cons_some hx, List.filterMap_nil, List.getLastD_concat,
      Option.getD_some]

theorem ratFiles_concat (args : List (List Char)) (arg : List Char) :
    ratFiles (args ++ [arg]) = ratFiles args ++
      (if lastType args = .remycc then optionValue "if=".toList arg else none).toList := by
  have hbefore : (List.range args.length).filterMap (fun i =>
      if lastType ((args ++ [arg]).take i) = .remycc then
        (args ++ [arg])[i]?.bind (optionValue "if=".toList) else none) = ratFiles args := by
    apply List.filterMap_congr
    intro i hi
    have hlt := List.mem_range.mp hi
    rw [List.take_append_of_le_length hlt.le, List.getElem?_append_left hlt]
  have hlast : (args ++ [arg])[args.length]? = some arg := List.getElem?_concat_length
  rw [ratFiles, List.length_append, List.length_singleton, List.range_succ, List.filterMap_append,
    hbefore]
  congr 1
  rw [List.filterMap_cons, List.take_left, hlast, Option.bind_some, List.filterMap_nil]
  split_ifs
  · cases optionValue "if=".toList arg with
    | none => rfl
    | some file => rfl
  · rfl

/-- The settings that one more argument asks for. -/
theorem askedFor_concat (args : List (List Char)) (arg : List Char) (rats more : List WhiskerTree) :
    askedFor (args ++ [arg]) (rats ++ more) =
      (askedFor args rats).given arg ((rats ++ more).getLastD .root) !(rats ++ more).isEmpty := by
  simp only [askedFor, SenderOptions.given, lastValue, lastNumber, lastType,
    getLastD_filterMap_concat]

theorem takeOption_askedFor (args : List (List Char)) (arg : List Char) (rats : List WhiskerTree) :
    takeOption parse close (askedFor args rats) arg =
      ((if lastType args = .remycc then optionValue "if=".toList arg else none).toList.mapM
        (readRat parse close)).map fun more => askedFor (args ++ [arg]) (rats ++ more) := by
  have htype : (askedFor args rats).cctype = lastType args := rfl
  rw [takeOption_eq, htype]
  cases (if lastType args = .remycc then optionValue "if=".toList arg else none) with
  | none =>
    have hgiven := askedFor_concat args arg rats []
    have hnil : (rats ++ []).getLastD .root = rats.getLastD .root ∧
        (!(rats ++ []).isEmpty) = !rats.isEmpty := by rw [List.append_nil]; exact ⟨rfl, rfl⟩
    rw [hnil.1, hnil.2] at hgiven
    rw [Option.elim_none, Option.toList_none, List.mapM_nil]
    exact congrArg Except.ok hgiven.symm
  | some file =>
    cases hread : readRat parse close file with
    | error failure =>
      rw [Option.elim_some, hread, Option.toList_some, List.mapM_cons, hread]
      rfl
    | ok rat =>
      have hgiven := askedFor_concat args arg rats [rat]
      have hfound : (!(rats ++ [rat]).isEmpty) = true := by simp
      rw [List.getLastD_concat, hfound] at hgiven
      rw [Option.elim_some, hread, Option.toList_some, List.mapM_cons, hread]
      exact congrArg Except.ok hgiven.symm

/-- A file of rules that is asked for while the type is that of RemyCC has to be read, and of each
name the last argument counts. -/
theorem foldlM_takeOption (args : List (List Char)) :
    args.foldlM (takeOption parse close) senderDefaults =
      ((ratFiles args).mapM (readRat parse close)).map (askedFor args) := by
  induction args using List.reverseRecOn with
  | nil => rfl
  | append_singleton args arg ih =>
    rw [List.foldlM_append, ih, ratFiles_concat, List.mapM_append]
    cases (ratFiles args).mapM (readRat parse close) with
    | error failure => rfl
    | ok rats =>
      have hstep := takeOption_askedFor parse close args arg rats
      change List.foldlM (takeOption parse close) (askedFor args rats) [arg] = _
      rw [List.foldlM_cons, hstep]
      cases (if lastType args = .remycc then optionValue "if=".toList arg else none).toList.mapM
        (readRat parse close) with
      | error failure => rfl
      | ok more => rfl

/-! ### Files that cannot be read -/

theorem readRat_exits_iff (file : List Char) : readRat parse close file = .error .exits ↔
    parse file = none ∨
      close file = false ∧ ∃ tree, parse file = some tree ∧ tree.Constructible := by
  unfold readRat
  cases hparse : parse file with
  | none => simp
  | some tree =>
    have hwhiskers := WhiskerTree.ofDna_isSome_iff tree
    cases hread : WhiskerTree.ofDna tree <;> rw [hread] at hwhiskers <;> simp_all

/-- The assertion of the constructor. -/
theorem readRat_aborts_iff (file : List Char) : readRat parse close file = .error .aborts ↔
    ∃ tree, parse file = some tree ∧ ¬tree.Constructible := by
  unfold readRat
  cases hparse : parse file with
  | none => simp
  | some tree =>
    have hwhiskers := WhiskerTree.ofDna_isSome_iff tree
    cases hread : WhiskerTree.ofDna tree <;> rw [hread] at hwhiskers
    · simp_all
    · cases close file <;> simp_all

/-- The first file of a list that cannot be read ends the program. -/
def RatsFail (files : List (List Char)) (failure : SenderFailure) : Prop :=
  ∃ before file after, files = before ++ file :: after ∧
    (∀ f ∈ before, ∃ whiskers, readRat parse close f = .ok whiskers) ∧
    readRat parse close file = .error failure

theorem mapM_readRat_eq_error_iff (files : List (List Char)) (failure : SenderFailure) :
    files.mapM (readRat parse close) = .error failure ↔ RatsFail parse close files failure := by
  induction files with
  | nil =>
    apply iff_of_false
    · intro h
      cases h
    · rintro ⟨before, file, after, hfiles, _⟩
      exact absurd hfiles.symm (List.append_ne_nil_of_right_ne_nil before (List.cons_ne_nil _ _))
  | cons f files ih =>
    rw [List.mapM_cons]
    cases hread : readRat parse close f with
    | error e =>
      constructor
      · intro h
        cases h
        exact ⟨[], f, files, rfl, by simp, hread⟩
      · rintro ⟨before, file, after, hfiles, hbefore, hfile⟩
        cases before with
        | nil =>
          obtain ⟨rfl, rfl⟩ := List.cons.inj hfiles
          rw [hread] at hfile
          cases hfile
          rfl
        | cons b before =>
          obtain ⟨rfl, -⟩ := List.cons.inj hfiles
          obtain ⟨whiskers, hok⟩ := hbefore f List.mem_cons_self
          rw [hread] at hok
          cases hok
    | ok whiskers =>
      have hrest : (files.mapM (readRat parse close)).map (whiskers :: ·) = .error failure ↔
          RatsFail parse close files failure := by
        rw [← ih]
        cases files.mapM (readRat parse close) with
        | error e => exact Iff.rfl
        | ok rats =>
          apply iff_of_false
          · intro h
            cases h
          · intro h
            cases h
      refine Iff.trans hrest ⟨?_, ?_⟩
      · rintro ⟨before, file, after, rfl, hbefore, hfile⟩
        refine ⟨f :: before, file, after, rfl, ?_, hfile⟩
        exact List.forall_mem_cons.mpr ⟨⟨whiskers, hread⟩, hbefore⟩
      · rintro ⟨before, file, after, hfiles, hbefore, hfile⟩
        cases before with
        | nil =>
          obtain ⟨rfl, rfl⟩ := List.cons.inj hfiles
          rw [hread] at hfile
          cases hfile
        | cons b before =>
          obtain ⟨rfl, hrest⟩ := List.cons.inj hfiles
          exact ⟨before, file, after, hrest, (List.forall_mem_cons.mp hbefore).2, hfile⟩

theorem isEmpty_of_mapM {rats : List WhiskerTree} {files : List (List Char)}
    (h : files.mapM (readRat parse close) = .ok rats) : rats.isEmpty = files.isEmpty := by
  cases files with
  | nil =>
    cases h
    rfl
  | cons file files =>
    rw [List.mapM_cons] at h
    cases hread : readRat parse close file with
    | error e =>
      rw [hread] at h
      cases h
    | ok whiskers =>
      rw [hread] at h
      cases hrest : files.mapM (readRat parse close) with
      | error e =>
        rw [hrest] at h
        cases h
      | ok more =>
        rw [hrest] at h
        cases h
        rfl

/-! ### What is started -/

theorem senderStart_exits_iff (o : SenderOptions) :
    senderStart o = .exits ↔ o.serverip = [] ∨ o.cctype = .remycc ∧ o.ratFound = false := by
  unfold senderStart
  cases htype : o.cctype <;> grind

theorem senderStart_aborts_iff (o : SenderOptions) : senderStart o = .aborts ↔
    o.serverip ≠ [] ∧ (o.cctype = .pcc ∨ o.cctype = .nashcc ∨ o.cctype = .markoviancc ∧
      (o.deltaConf = [] ∨
        ∃ e, DoubleConfig.unconfigured.interpretConfigStr o.deltaConf = .error e)) := by
  unfold senderStart
  cases htype : o.cctype <;> grind

theorem senderStart_remyCC_iff (o o' : SenderOptions) :
    senderStart o = .remyCC o' ↔
      o.cctype = .remycc ∧ o.serverip ≠ [] ∧ o.ratFound = true ∧ o' = o := by
  unfold senderStart
  cases htype : o.cctype <;> grind

theorem senderStart_copa_iff (o o' : SenderOptions) (config : DoubleConfig) :
    senderStart o = .copa config o' ↔
      o.cctype = .markoviancc ∧ o.serverip ≠ [] ∧ o.deltaConf ≠ [] ∧
        DoubleConfig.unconfigured.interpretConfigStr o.deltaConf = .ok config ∧ o' = o := by
  unfold senderStart
  cases htype : o.cctype <;> grind

/-- The end of the loop. -/
theorem senderMain_cases (args : List (List Char)) :
    (RatsFail parse close (ratFiles args) .exits ∧ senderMain parse close args = .exits) ∨
      (RatsFail parse close (ratFiles args) .aborts ∧ senderMain parse close args = .aborts) ∨
      ∃ rats, (ratFiles args).mapM (readRat parse close) = .ok rats ∧
        senderMain parse close args = senderStart (askedFor args rats) := by
  have hloop := foldlM_takeOption parse close args
  cases hread : (ratFiles args).mapM (readRat parse close) with
  | error failure =>
    have hfail := (mapM_readRat_eq_error_iff parse close _ failure).mp hread
    rw [hread] at hloop
    cases failure with
    | exits => exact .inl ⟨hfail, by rw [senderMain, hloop]; rfl⟩
    | aborts => exact .inr (.inl ⟨hfail, by rw [senderMain, hloop]; rfl⟩)
  | ok rats =>
    rw [hread] at hloop
    exact .inr (.inr ⟨rats, rfl, by rw [senderMain, hloop]; rfl⟩)

/-- For every command line: the program exits if the first rule file that cannot be read, of those
asked for while the type is that of RemyCC, cannot be parsed or closed, or all are read and there is
no server, or no rules for RemyCC; an assertion fails for a rule file that is no tree, for a type
without a sender, or for a configuration of Copa that is empty or not accepted. Otherwise it comes
to what the last arguments of each name say. -/
theorem sender_main_starts (args : List (List Char)) (o : SenderOptions) (config : DoubleConfig) :
    (senderMain parse close args = .exits ↔
      RatsFail parse close (ratFiles args) .exits ∨
        (∃ rats, (ratFiles args).mapM (readRat parse close) = .ok rats) ∧
          (lastValue "serverip=".toList "0.0".toList args = [] ∨
            lastType args = .remycc ∧ ratFiles args = [])) ∧
    (senderMain parse close args = .aborts ↔
      RatsFail parse close (ratFiles args) .aborts ∨
        (∃ rats, (ratFiles args).mapM (readRat parse close) = .ok rats) ∧
          lastValue "serverip=".toList "0.0".toList args ≠ [] ∧
          (lastType args = .pcc ∨ lastType args = .nashcc ∨ lastType args = .markoviancc ∧
            (lastValue "delta_conf=".toList [] args = [] ∨
              ∃ e, DoubleConfig.unconfigured.interpretConfigStr
                (lastValue "delta_conf=".toList [] args) = .error e))) ∧
    (senderMain parse close args = .remyCC o ↔
      lastType args = .remycc ∧ lastValue "serverip=".toList "0.0".toList args ≠ [] ∧
        ratFiles args ≠ [] ∧ ∃ rats, (ratFiles args).mapM (readRat parse close) = .ok rats ∧
          o = askedFor args rats) ∧
    (senderMain parse close args = .copa config o ↔
      lastType args = .markoviancc ∧ lastValue "serverip=".toList "0.0".toList args ≠ [] ∧
        lastValue "delta_conf=".toList [] args ≠ [] ∧
        DoubleConfig.unconfigured.interpretConfigStr (lastValue "delta_conf=".toList [] args) =
          .ok config ∧
        ∃ rats, (ratFiles args).mapM (readRat parse close) = .ok rats ∧
          o = askedFor args rats) := by
  have hnone {failure : SenderFailure} (hfail : RatsFail parse close (ratFiles args) failure) :
      (ratFiles args).mapM (readRat parse close) = .error failure :=
    (mapM_readRat_eq_error_iff parse close _ failure).mpr hfail
  rcases senderMain_cases parse close args with
    ⟨hfail, hmain⟩ | ⟨hfail, hmain⟩ | ⟨rats, hread, hmain⟩
  · have hother : ¬RatsFail parse close (ratFiles args) .aborts := by
      intro h
      have hboth := (hnone hfail).symm.trans (hnone h)
      cases hboth
    simp [hmain, hnone hfail, hfail, hother]
  · have hother : ¬RatsFail parse close (ratFiles args) .exits := by
      intro h
      have hboth := (hnone hfail).symm.trans (hnone h)
      cases hboth
    simp [hmain, hnone hfail, hfail, hother]
  · have hfails (failure : SenderFailure) : ¬RatsFail parse close (ratFiles args) failure := by
      intro h
      have hboth := hread.symm.trans (hnone h)
      cases hboth
    have hfound : (askedFor args rats).ratFound = !(ratFiles args).isEmpty :=
      congrArg not (isEmpty_of_mapM parse close hread)
    have hempty : (!(ratFiles args).isEmpty) = false ↔ ratFiles args = [] := by
      rw [Bool.not_eq_false', List.isEmpty_iff]
    have hsome : ∃ rats', (ratFiles args).mapM (readRat parse close) = .ok rats' := ⟨rats, hread⟩
    have hasked (p : SenderOptions → Prop) :
        (∃ rats', Except.ok rats = (Except.ok rats' : Except SenderFailure _) ∧
          p (askedFor args rats')) ↔ p (askedFor args rats) := by
      simp only [Except.ok.injEq, exists_eq_left']
    refine ⟨?_, ?_, ?_, ?_⟩
    · rw [hmain, or_iff_right (hfails _), and_iff_right hsome, senderStart_exits_iff, hfound,
        hempty]
      rfl
    · rw [hmain, or_iff_right (hfails _), and_iff_right hsome, senderStart_aborts_iff]
      rfl
    · rw [hmain, hread, hasked (o = ·), senderStart_remyCC_iff, hfound, ← Bool.not_eq_false, hempty]
      rfl
    · rw [hmain, hread, hasked (o = ·), senderStart_copa_iff]
      rfl

end
end CopaNgscope
