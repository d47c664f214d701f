import SuiteLint.Text.CodeRun

/-! The characters of words: letters, digits and the underscore. -/
namespace SuiteLint.Text

/-- Letters and numbers beyond ASCII. -/
def alphanumericRuns : List CodeRun :=
  singles [170,11,714,7,6,461,380,42,17,161,73,32,10,4,277,19,98,11,17,46,98,95,19,41,68,70,25,52,109,32,35,
   61,128,17,111,199,33,24,9,58,353,45,57,6,395,104,1303,5,206,509,595,708,324,5,14,57,2991,42,6,66,192,
   31140,296,383,55,20588,33,3274,52,2105,207,3,47,102,172,181,19,375,381,116,593,247,58,22,77,419,262,82,
   536,20384,147,25791,25,139,3080,2045,1241,3,27,18,16,26] ++
  runsBy 1 [(178,1),(6,1),(2,2),(2,22),(2,30),(2,457),(5,11),(15,4),(140,4),(2,1),(3,3),(11,2),(4,19),(2,82),
   (2,138),(9,165),(2,37),(10,40),(72,26),(5,3),(46,42),(22,9),(5,1),(2,98),(18,1),(8,14),(22,29),(30,88),
   (27,42),(10,1),(11,21),(43,24),(8,10),(6,23),(2,5),(18,41),(59,53),(31,9),(5,9),(2,15),(5,7),(3,1),(3,21),
   (2,6),(6,3),(35,1),(2,2),(5,11),(3,5),(12,5),(5,1),(3,21),(2,6),(2,1),(2,1),(2,1),(32,3),(10,9),(3,2),
   (17,8),(2,2),(2,21),(2,6),(2,1),(2,4),(39,1),(5,9),(22,7),(3,1),(3,21),(2,6),(2,1),(2,4),(35,1),(2,2),
   (5,9),(2,6),(14,5),(4,2),(2,3),(4,1),(4,1),(4,1),(4,2),(4,11),(45,12),(19,7),(2,2),(2,22),(2,15),(31,2),
   (6,1),(5,9),(9,6),(7,7),(2,2),(2,22),(2,9),(2,4),(36,1),(2,1),(5,9),(2,1),(18,8),(2,2),(2,40),(26,2),
   (2,9),(5,18),(2,5),(6,17),(4,23),(2,8),(5,6),(32,9),(18,47),(2,1),(13,6),(10,9),(40,1),(4,4),(2,23),(4,9),
   (2,1),(13,4),(12,9),(3,3),(65,19),(13,7),(2,35),(28,4),(116,42),(21,10),(7,5),(5,3),(8,1),(8,2),(5,12),
   (15,9),(7,37),(11,42),(2,332),(2,3),(3,6),(4,3),(3,40),(2,3),(3,32),(2,3),(3,6),(4,3),(3,14),(2,56),(2,3),
   (3,66),(15,19),(4,15),(17,85),(3,5),(4,619),(3,16),(2,25),(6,74),(4,10),(8,17),(14,18),(15,17),(15,12),
   (2,2),(16,51),(45,9),(7,9),(23,9),(7,88),(8,4),(3,33),(8,69),(11,30),(40,39),(3,4),(12,43),(5,25),(7,10),
   (38,22),(10,52),(44,9),(7,9),(108,46),(18,7),(4,9),(42,29),(14,55),(27,35),(29,9),(4,48),(3,8),(8,42),
   (3,2),(42,3),(2,5),(2,1),(10,191),(65,277),(3,5),(3,37),(3,5),(3,7),(8,30),(3,52),(2,6),(6,2),(2,6),(4,3),
   (3,5),(5,12),(6,2),(2,6),(116,1),(3,5),(6,10),(7,12),(110,9),(6,4),(13,3),(2,10),(3,3),(6,4),(7,57),
   (727,59),(79,21),(631,29),(1133,228),(7,3),(4,1),(13,37),(11,55),(25,22),(10,6),(2,6),(2,6),(2,6),(2,6),
   (2,6),(2,6),(2,6),(551,2),(26,8),(8,4),(3,4),(5,85),(7,2),(2,89),(2,3),(6,42),(2,93),(4,3),(11,31),
   (49,15),(33,9),(31,7),(2,14),(33,9),(40,14),(321,6591),(65,22156),(68,45),(3,268),(4,27),(21,46),(17,30),
   (3,79),(40,8),(3,102),(3,63),(6,1),(4,4),(25,15),(2,2),(2,3),(2,22),(14,5),(11,51),(15,49),(29,9),(25,5),
   (6,1),(2,37),(11,22),(26,28),(8,46),(29,10),(7,4),(2,24),(2,40),(24,2),(2,7),(5,9),(7,22),(8,49),(6,1),
   (3,4),(30,2),(3,10),(8,2),(13,5),(3,5),(3,5),(10,6),(2,6),(2,42),(2,13),(7,114),(14,9),(7,11171),(13,22),
   (5,48),(8453,365),(3,105),(39,6),(13,4),(8,9),(2,12),(2,4),(4,1),(2,1),(2,107),(34,362),(19,63),(3,53),
   (41,11),(117,4),(2,134),(20,9),(8,25),(7,25),(12,88),(4,5),(3,5),(3,5),(3,2),(36,11),(2,25),(2,18),(2,1),
   (2,14),(3,13),(35,122),(13,44),(13,56),(18,1),(245,28),(4,48),(17,26),(5,35),(10,29),(6,37),(11,29),
   (3,35),(5,7),(2,4),(43,157),(3,9),(7,35),(5,35),(5,39),(9,51),(13,10),(2,14),(2,6),(2,1),(2,10),(2,14),
   (2,6),(2,1),(68,310),(10,21),(11,7),(25,5),(2,41),(2,8),(70,5),(5,43),(2,1),(7,22),(3,30),(3,37),(9,8),
   (49,18),(2,1),(6,32),(5,25),(71,55),(5,19),(3,46),(16,3),(2,2),(2,28),(11,8),(24,30),(2,31),(33,7),(2,27),
   (7,4),(17,53),(11,21),(3,26),(6,25),(24,6),(81,72),(56,50),(14,50),(8,41),(13,9),(295,30),(2,41),(7,1),
   (79,39),(9,21),(12,3),(28,17),(47,27),(21,22),(13,52),(27,29),(2,1),(17,44),(33,24),(8,9),(10,35),(16,9),
   (17,34),(17,47),(15,3),(12,10),(7,19),(12,17),(2,24),(85,6),(4,3),(2,14),(2,9),(8,46),(18,9),(12,7),(3,1),
   (3,21),(2,6),(2,1),(2,4),(36,4),(159,52),(19,3),(6,9),(6,2),(31,47),(21,1),(11,9),(167,46),(42,3),(37,47),
   (33,9),(39,42),(22,9),(55,26),(22,11),(5,6),(186,43),(117,82),(13,7),(6,7),(2,1),(2,23),(33,9),(71,7),
   (3,38),(59,39),(42,45),(39,72),(264,8),(2,36),(34,28),(6,29),(113,6),(2,1),(2,37),(32,9),(7,5),(2,1),
   (2,31),(23,9),(311,18),(206,20),(44,921),(103,110),(18,195),(2637,96),(16,1070),(4050,582),(8634,568),
   (8,30),(2,9),(7,78),(2,9),(7,29),(19,47),(17,3),(13,9),(2,6),(2,20),(6,18),(689,86),(106,74),(73,12),
   (65,1),(31,6135),(9,1237),(43,8),(8936,3),(2,6),(2,1),(2,290),(46,2),(18,3),(9,395),(2309,106),(6,12),
   (4,8),(8,9),(5703,19),(109,24),(136,84),(2,70),(2,1),(6,1),(3,3),(2,11),(4,6),(2,64),(2,3),(3,7),(2,6),
   (2,27),(2,3),(2,4),(6,6),(2,339),(3,24),(2,24),(2,30),(2,24),(2,30),(2,24),(2,30),(2,24),(2,30),(2,24),
   (2,7),(3,49),(1793,30),(482,44),(11,6),(3,9),(327,29),(19,43),(5,9),(1255,6),(2,3),(2,1),(2,14),(2,196),
   (3,8),(49,67),(13,9),(792,58),(2,2),(2,3),(77,44),(2,14),(195,3),(2,26),(2,1),(7,9),(2,3),(22,2),(2,1),
   (15,1),(5,3),(2,6),(2,3),(2,3),(4,9),(2,16),(6,2),(2,4),(2,16),(581,12),(2788,9),(1031,42719),(33,4152),
   (8,221),(3,5761),(15,7472),(3104,541),(1507,4938)] ++
  runsBy 2 [(748,2),(7275,4),(455,4),(35224,2),(28285,2),(160,2),(54358,2),(12,4),(12,8)]

def isAlphanumeric (c : Char) : Bool :=
  if c.toNat < 128 then c.isAlphanum else inRuns alphanumericRuns c

def isWord (c : Char) : Bool := c == '_' || isAlphanumeric c

end SuiteLint.Text
