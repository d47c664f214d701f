import SuiteLint.Text.CodeRun

/-! Lower, upper and title case letters. -/
namespace SuiteLint.Text

def lowercaseRuns : List CodeRun :=
  singles [170,11,5,206,10,3,9,10,5,3,22,3,115,6,259,50,25,101,3,7110,179,14,139,9,28,5,5,21,54,2781,16,130,
   52,6,31332,30,71,24458,52539,784] ++
  runsBy 1 [(223,23),(2,7),(56,1),(16,1),(53,2),(12,1),(12,2),(15,1),(14,1),(3,2),(29,1),(18,1),(67,6),(6,1),
   (15,68),(2,35),(8,1),(31,4),(150,3),(47,34),(2,1),(4,2),(24,4),(8,1),(52,47),(111,1),(145,40),(2888,42),
   (3,2),(761,5),(2179,8),(120,191),(214,8),(98,8),(9,5),(11,7),(9,7),(9,5),(11,7),(9,7),(9,13),(3,7),(9,7),
   (9,7),(9,4),(2,1),(11,2),(2,1),(9,3),(3,1),(9,7),(11,2),(2,1),(153,12),(114,1),(45,1),(9,3),(39,15),
   (849,25),(1863,47),(6,1),(13,1),(2,7),(102,1),(28,37),(31094,2),(146,2),(62,9),(27,2),(99,2),(822,42),
   (2,12),(8,79),(20289,6),(13,4),(1066,25),(1230,39),(137,35),(156,10),(2,14),(2,6),(2,1),(455,2),(2,41),
   (2,8),(1286,50),(3022,31),(21889,31),(26011,25),(27,6),(2,17),(27,25),(27,3),(4,6),(2,10),(27,25),(27,25),
   (27,25),(27,25),(27,25),(27,25),(27,25),(27,25),(27,27),(29,24),(2,5),(27,24),(2,5),(27,24),(2,5),(27,24),
   (2,5),(27,24),(2,5),(1847,9),(2,19),(2564,33)] ++
  runsBy 2 [(257,52),(5,12),(5,44),(3,2),(7,2),(28,4),(15,2),(22,14),(5,14),(6,2),(4,56),(22,6),(292,2),
   (102,20),(116,32),(10,52),(3,10),(5,94),(6354,146),(12,94),(3435,4),(21,96),(11,2),(31059,44),(20,24),
   (138,10),(6,58),(13,2),(3,8),(5,2),(9,18),(12,14),(5,2),(7,8)]

def uppercaseRuns : List CodeRun :=
  singles [388,37,3,9,7,8,3,3,39,3,77,309,9,7,6,67,37,3,3280,6,4149,5,14,48,62,2781,18,3,125,31447,7,37,
   76967,6,164,644] ++
  runsBy 1 [(192,22),(2,6),(154,1),(8,1),(4,1),(2,2),(3,3),(2,1),(2,2),(4,1),(2,1),(6,1),(7,1),(2,2),(4,1),
   (62,2),(66,1),(2,1),(5,3),(322,2),(4,1),(2,16),(2,8),(39,2),(37,1),(3,50),(145,1),(112,37),(2890,37),
   (731,85),(2203,42),(3,2),(585,7),(9,5),(11,7),(9,7),(9,5),(27,7),(73,3),(13,3),(13,3),(13,4),(12,3),
   (272,2),(3,2),(7,4),(13,3),(3,3),(11,1),(33,15),(839,25),(1841,47),(51,2),(9,3),(14,2),(31485,1),(44,4),
   (2,4),(16,3),(22362,25),(1222,39),(137,35),(157,10),(2,14),(2,6),(2,1),(1771,50),(3054,31),(21889,31),
   (26017,25),(27,25),(27,25),(29,1),(6,1),(3,3),(2,7),(27,25),(27,1),(2,3),(3,7),(2,6),(28,1),(2,3),(2,4),
   (6,6),(28,25),(27,25),(27,25),(27,25),(27,25),(27,25),(31,24),(34,24),(34,24),(34,24),(34,24),(4440,33),
   (2063,25),(7,25),(7,25)] ++
  runsBy 2 [(256,54),(3,14),(3,44),(5,2),(37,2),(41,14),(3,16),(12,56),(22,6),(290,2),(102,22),(114,32),
   (10,52),(5,10),(3,94),(6354,148),(10,96),(91,6),(453,4),(2879,4),(23,96),(9,2),(31059,44),(20,26),
   (136,12),(4,60),(11,2),(5,6),(5,2),(3,2),(4,18),(14,12),(20,2)]

def titlecaseRuns : List CodeRun :=
  singles [453,3,3,39,7626,16,48] ++
  runsBy 1 [(8072,7),(9,7),(9,7)]

/-- Characters beyond ASCII that are skipped in the search for the end of a word. -/
def caseIgnorableRuns : List CodeRun :=
  singles [168,12,710,13,466,6,96,8,45,40,36,48,394,3,139,197,36,16,59,17,49,62,21,36,71,17,52,59,3,14,53,62,
   13,51,4,56,69,59,3,7,135,52,73,12,91,128,21,256,188,11,16,95,1738,17,6,102,102,137,233,59,41,40,141,8,6,
   164,7,256,7,132,581,103,3,74,14,3312,16,176,470,54,28634,1527,115,241,146,4,5,33,211,180,28,116,9,36,12,
   52,17,28,25,239,3,5,20273,757,63,3,170,8,7,12,86,115,538,227,1887,1474,111,77,5,11,166,92,101,10,161,97,
   262,24,92,387,122,647,5,157,103,504,251,13,21000,27430,15,2090,793939] ++
  runsBy 1 [(183,1),(504,191),(5,1),(15,1),(254,6),(264,44),(4,1),(2,1),(59,5),(11,10),(49,20),(119,7),(2,9),
   (2,3),(67,26),(92,10),(59,10),(33,23),(44,2),(53,1),(7,7),(42,57),(63,7),(9,6),(11,1),(94,3),(30,1),
   (30,1),(63,1),(5,1),(3,2),(35,1),(16,1),(63,4),(2,1),(26,1),(23,5),(66,3),(17,1),(12,1),(219,2),(6,2),
   (2,3),(8,1),(12,1),(105,1),(21,1),(29,1),(58,1),(5,3),(30,1),(111,2),(96,6),(12,8),(102,8),(12,5),(75,1),
   (88,13),(2,4),(2,1),(6,10),(2,35),(113,3),(2,5),(2,1),(3,1),(26,1),(5,2),(17,3),(17,1),(727,2),(947,2),
   (30,1),(31,1),(31,1),(65,1),(2,6),(12,10),(56,4),(118,1),(154,2),(5,1),(17,2),(220,1),(64,6),(7,7),(7,9),
   (52,30),(50,3),(51,4),(49,8),(13,1),(33,3),(3,1),(2,2),(59,1),(6,2),(59,7),(3,1),(65,5),(83,2),(2,12),
   (2,6),(16,1),(51,62),(49,100),(448,2),(12,2),(14,2),(14,2),(14,1),(13,4),(9,1),(17,4),(50,4),(2,9),
   (33,12),(52,32),(2956,1),(114,2),(239,31),(555,3),(4,4),(100,5),(94,2),(29690,5),(370,3),(2,9),(31,3),
   (81,1),(15,33),(103,2),(104,2),(4,1),(44,1),(158,1),(27,17),(53,7),(26,10),(47,2),(52,3),(3,1),(40,1),
   (67,5),(3,1),(3,1),(124,2),(3,1),(6,1),(45,1),(6,1),(103,4),(10,2),(20551,16),(574,15),(17,15),(367,1),
   (90,2),(891,4),(1030,5),(2,41),(2,8),(583,2),(2,1),(6,3),(41,2),(171,1),(574,3),(388,1),(154,10),(50,3),
   (179,14),(45,1),(11,2),(50,3),(3,1),(70,2),(37,4),(2,7),(76,1),(53,8),(11,3),(99,2),(5,1),(172,7),(22,1),
   (58,1),(42,6),(4,4),(196,7),(3,2),(111,5),(7,1),(2,1),(239,3),(7,1),(2,1),(28,1),(86,7),(5,1),(112,5),
   (104,2),(3,3),(2,4),(260,8),(2,1),(257,1),(152,3),(3,1),(38,9),(41,5),(3,3),(19,5),(3,2),(47,12),(2,1),
   (407,6),(2,5),(85,21),(3,6),(2,1),(2,1),(123,5),(6,1),(2,6),(75,1),(354,1),(5436,8),(14008,4),(60,6),
   (10,3),(1100,16),(65,1),(2,1),(16396,3),(2,6),(2,1),(3231,1),(2,3),(4701,45),(3,22),(545,2),(10,15),(3,6),
   (31,3),(149,2),(1980,54),(5,49),(47,4),(2,14),(1361,6),(2,16),(3,6),(2,1),(2,4),(262,13),(431,3),(1505,6),
   (110,7),(2736,4),(789537,95),(129,239)] ++
  runsBy 2 [(173,2),(1632,2),(553,2),(1529,4),(2855,2),(58588,2),(5995,2),(1768,2)]

def isLower (c : Char) : Bool :=
  if c.toNat < 128 then c.isLower else inRuns lowercaseRuns c

def isUpper (c : Char) : Bool :=
  if c.toNat < 128 then c.isUpper else inRuns uppercaseRuns c

def isTitle (c : Char) : Bool := inRuns titlecaseRuns c

def isCaseIgnorable (c : Char) : Bool :=
  if c.toNat < 128 then "'.:^`".toList.contains c else inRuns caseIgnorableRuns c

/-- Characters that have case and are not skipped in the search for the end of a word. -/
def isCased (c : Char) : Bool := (isLower c || isUpper c || isTitle c) && !isCaseIgnorable c

end SuiteLint.Text
