import SuiteLint.Text.CodeRun

/-! The lower and upper case forms of characters. -/
namespace SuiteLint.Text

/-- A run whose members are moved to the places from `image` on, at the same distances. -/
structure CaseRun where
  run : CodeRun
  image : Nat
  deriving DecidableEq

/-- The runs of `rows`, each told by its distance from the end of the run before, its extent, step and image. -/
def caseRuns (rows : List (Nat × Nat × Nat × Nat)) : List CaseRun :=
  after 0 rows
where
  after (reached : Nat) : List (Nat × Nat × Nat × Nat) → List CaseRun
    | [] => []
    | (gap, extent, step, image) :: rest =>
      let first := reached + gap
      ⟨⟨first, first + extent, step⟩, image⟩ :: after (first + extent) rest

/-- The place to which the first run that holds the character moves it. -/
def moved (runs : List CaseRun) (c : Char) : Char :=
  match runs.find? (·.run.has c.toNat) with
  | some r => Char.ofNat (r.image + (c.toNat - r.run.first))
  | none => c

/-- Characters beyond ASCII with a lower case form of one character. -/
def toLowerRuns : List CaseRun :=
  caseRuns [(192,22,1,224),(2,6,1,248),(34,46,2,257),(4,4,2,307),(3,14,2,314),(3,44,2,331),(2,0,1,255),
   (1,4,2,378),(4,0,1,595),(1,2,2,387),(2,0,1,596),(1,0,1,392),(2,1,1,598),(1,0,1,396),(3,0,1,477),
   (1,0,1,601),(1,0,1,603),(1,0,1,402),(2,0,1,608),(1,0,1,611),(2,0,1,617),(1,0,1,616),(1,0,1,409),
   (4,0,1,623),(1,0,1,626),(2,0,1,629),(1,4,2,417),(2,0,1,640),(1,0,1,424),(2,0,1,643),(3,0,1,429),
   (2,0,1,648),(1,0,1,432),(2,1,1,650),(1,2,2,436),(2,0,1,658),(1,0,1,441),(4,0,1,445),(8,0,1,454),
   (1,0,1,454),(2,0,1,457),(1,0,1,457),(2,0,1,460),(1,16,2,460),(3,16,2,479),(3,0,1,499),(1,2,2,499),
   (2,0,1,405),(1,0,1,447),(1,38,2,505),(2,0,1,414),(2,16,2,547),(8,0,1,11365),(1,0,1,572),(2,0,1,410),
   (1,0,1,11366),(3,0,1,578),(2,0,1,384),(1,0,1,649),(1,0,1,652),(1,8,2,583),(290,2,2,881),(4,0,1,887),
   (9,0,1,1011),(7,0,1,940),(2,2,1,941),(2,0,1,972),(2,1,1,973),(2,16,1,945),(2,8,1,963),(36,0,1,983),
   (9,22,2,985),(6,0,1,952),(3,0,1,1016),(2,0,1,1010),(1,0,1,1019),(3,2,1,891),(1,15,1,1104),(1,31,1,1072),
   (49,32,2,1121),(10,52,2,1163),(2,0,1,1231),(1,12,2,1218),(3,94,2,1233),(3,37,1,1377),(2890,37,1,11520),
   (2,0,1,11559),(6,0,1,11565),(723,79,1,43888),(1,5,1,5112),(2203,42,1,4304),(3,2,1,4349),(321,148,2,7681),
   (10,0,1,223),(2,94,2,7841),(10,7,1,7936),(9,5,1,7952),(11,7,1,7968),(9,7,1,7984),(9,5,1,8000),
   (12,6,2,8017),(9,7,1,8032),(25,7,1,8064),(9,7,1,8080),(9,7,1,8096),(9,1,1,8112),(1,1,1,8048),(1,0,1,8115),
   (12,3,1,8050),(1,0,1,8131),(12,1,1,8144),(1,1,1,8054),(13,1,1,8160),(1,1,1,8058),(1,0,1,8165),
   (12,1,1,8056),(1,1,1,8060),(1,0,1,8179),(298,0,1,969),(4,0,1,107),(1,0,1,229),(7,0,1,8526),(46,15,1,8560),
   (20,0,1,8580),(819,25,1,9424),(1841,47,1,11312),(49,0,1,11361),(2,0,1,619),(1,0,1,7549),(1,0,1,637),
   (3,4,2,11368),(2,0,1,593),(1,0,1,625),(1,0,1,592),(1,0,1,594),(2,0,1,11379),(3,0,1,11382),(9,1,1,575),
   (1,98,2,11393),(9,2,2,11500),(5,0,1,11507),(31054,44,2,42561),(20,26,2,42625),(136,12,2,42787),
   (4,60,2,42803),(11,2,2,42874),(2,0,1,7545),(1,8,2,42879),(5,0,1,42892),(2,0,1,613),(3,2,2,42897),
   (4,18,2,42903),(2,0,1,614),(1,0,1,604),(1,0,1,609),(1,0,1,620),(1,0,1,618),(2,0,1,670),(1,0,1,647),
   (1,0,1,669),(1,0,1,43859),(1,14,2,42933),(2,0,1,42900),(1,0,1,642),(1,0,1,7566),(1,2,2,42952),
   (7,0,1,42961),(6,2,2,42967),(29,0,1,42998),(22316,25,1,65345),(1222,39,1,66600),(137,35,1,66776),
   (157,10,1,66967),(2,14,1,66979),(2,6,1,66995),(2,1,1,67003),(1771,50,1,68800),(3054,31,1,71872),
   (21889,31,1,93792),(31393,33,1,125218)]

/-- Small letters with a capital of which they are not the lower case form. -/
def strayCapitals : List (Nat × Nat) :=
  [(181,924),(305,73),(383,83),(453,452),(456,455),(459,458),(498,497),(837,921),(962,931),(976,914),
   (977,920),(981,934),(982,928),(1008,922),(1009,929),(1013,917),(7296,1042),(7297,1044),(7298,1054),
   (7299,1057),(7300,1058),(7301,1058),(7302,1066),(7303,1122),(7304,42570),(7835,7776),(8126,921)]

def CaseRun.inverse (r : CaseRun) : CaseRun :=
  ⟨⟨r.image, r.image + (r.run.last - r.run.first), r.run.step⟩, r.run.first⟩

/-- Characters beyond ASCII with an upper case form of one character. -/
def toUpperRuns : List CaseRun :=
  strayCapitals.map (fun (n, image) => ⟨⟨n, n, 1⟩, image⟩) ++ toLowerRuns.map CaseRun.inverse

/-- Characters whose upper case form has several characters. -/
def toUpperWords : List (Nat × List Nat) :=
  [(8064,7944),(8080,7976),(8096,8040)].flatMap (fun (first, image) =>
    (List.range 16).map fun n => (first + n, [image + n % 8, 921])) ++
  [(223,[83,83]),(329,[700,78]),(496,[74,780]),(912,[921,776,769]),(944,[933,776,769]),(1415,[1333,1362]),
   (7830,[72,817]),(7831,[84,776]),(7832,[87,778]),(7833,[89,778]),(7834,[65,702]),(8016,[933,787]),
   (8018,[933,787,768]),(8020,[933,787,769]),(8022,[933,787,834]),(8114,[8122,921]),(8115,[913,921]),
   (8116,[902,921]),(8118,[913,834]),(8119,[913,834,921]),(8124,[913,921]),(8130,[8138,921]),
   (8131,[919,921]),(8132,[905,921]),(8134,[919,834]),(8135,[919,834,921]),(8140,[919,921]),
   (8146,[921,776,768]),(8147,[921,776,769]),(8150,[921,834]),(8151,[921,776,834]),(8162,[933,776,768]),
   (8163,[933,776,769]),(8164,[929,787]),(8166,[933,834]),(8167,[933,776,834]),(8178,[8186,921]),
   (8179,[937,921]),(8180,[911,921]),(8182,[937,834]),(8183,[937,834,921]),(8188,[937,921]),(64256,[70,70]),
   (64257,[70,73]),(64258,[70,76]),(64259,[70,70,73]),(64260,[70,70,76]),(64261,[83,84]),(64262,[83,84]),
   (64275,[1348,1350]),(64276,[1348,1333]),(64277,[1348,1339]),(64278,[1358,1350]),(64279,[1348,1341])]

def lowerChar (c : Char) : List Char :=
  if c.toNat < 128 then [c.toLower]
  else if c.toNat = 304 then ['i', Char.ofNat 775]
  else [moved toLowerRuns c]

def upperChar (c : Char) : List Char :=
  if c.toNat < 128 then [c.toUpper]
  else match toUpperWords.lookup c.toNat with
    | some word => word.map Char.ofNat
    | none => [moved toUpperRuns c]

end SuiteLint.Text
