/-! Ranges of the characters that have no glyph of their own: controls, separators other than the
space, private and unassigned code points, and what is ignorable by default; and of the characters
that extend the one before, without the two halfwidth sound marks, which take up a cell. Both are as
in version 17 of Unicode. -/
namespace AmqpClient.Text

def hiddenRanges : List (Nat × Nat) := [
  (0,31),(127,160),(173,173),(847,847),(888,889),(896,899),(907,907),(909,909),(930,930),
  (1328,1328),(1367,1368),(1419,1420),(1424,1424),(1480,1487),(1515,1518),(1525,1541),(1564,1564),
  (1757,1757),(1806,1807),(1867,1868),(1970,1983),(2043,2044),(2094,2095),(2111,2111),(2140,2141),
  (2143,2143),(2155,2159),(2192,2198),(2274,2274),(2436,2436),(2445,2446),(2449,2450),(2473,2473),
  (2481,2481),(2483,2485),(2490,2491),(2501,2502),(2505,2506),(2511,2518),(2520,2523),(2526,2526),
  (2532,2533),(2559,2560),(2564,2564),(2571,2574),(2577,2578),(2601,2601),(2609,2609),(2612,2612),
  (2615,2615),(2618,2619),(2621,2621),(2627,2630),(2633,2634),(2638,2640),(2642,2648),(2653,2653),
  (2655,2661),(2679,2688),(2692,2692),(2702,2702),(2706,2706),(2729,2729),(2737,2737),(2740,2740),
  (2746,2747),(2758,2758),(2762,2762),(2766,2767),(2769,2783),(2788,2789),(2802,2808),(2816,2816),
  (2820,2820),(2829,2830),(2833,2834),(2857,2857),(2865,2865),(2868,2868),(2874,2875),(2885,2886),
  (2889,2890),(2894,2900),(2904,2907),(2910,2910),(2916,2917),(2936,2945),(2948,2948),(2955,2957),
  (2961,2961),(2966,2968),(2971,2971),(2973,2973),(2976,2978),(2981,2983),(2987,2989),(3002,3005),
  (3011,3013),(3017,3017),(3022,3023),(3025,3030),(3032,3045),(3067,3071),(3085,3085),(3089,3089),
  (3113,3113),(3130,3131),(3141,3141),(3145,3145),(3150,3156),(3159,3159),(3163,3163),(3166,3167),
  (3172,3173),(3184,3190),(3213,3213),(3217,3217),(3241,3241),(3252,3252),(3258,3259),(3269,3269),
  (3273,3273),(3278,3284),(3287,3291),(3295,3295),(3300,3301),(3312,3312),(3316,3327),(3341,3341),
  (3345,3345),(3397,3397),(3401,3401),(3408,3411),(3428,3429),(3456,3456),(3460,3460),(3479,3481),
  (3506,3506),(3516,3516),(3518,3519),(3527,3529),(3531,3534),(3541,3541),(3543,3543),(3552,3557),
  (3568,3569),(3573,3584),(3643,3646),(3676,3712),(3715,3715),(3717,3717),(3723,3723),(3748,3748),
  (3750,3750),(3774,3775),(3781,3781),(3783,3783),(3791,3791),(3802,3803),(3808,3839),(3912,3912),
  (3949,3952),(3992,3992),(4029,4029),(4045,4045),(4059,4095),(4294,4294),(4296,4300),(4302,4303),
  (4447,4448),(4681,4681),(4686,4687),(4695,4695),(4697,4697),(4702,4703),(4745,4745),(4750,4751),
  (4785,4785),(4790,4791),(4799,4799),(4801,4801),(4806,4807),(4823,4823),(4881,4881),(4886,4887),
  (4955,4956),(4989,4991),(5018,5023),(5110,5111),(5118,5119),(5760,5760),(5789,5791),(5881,5887),
  (5910,5918),(5943,5951),(5972,5983),(5997,5997),(6001,6001),(6004,6015),(6068,6069),(6110,6111),
  (6122,6127),(6138,6143),(6155,6159),(6170,6175),(6265,6271),(6315,6319),(6390,6399),(6431,6431),
  (6444,6447),(6460,6463),(6465,6467),(6510,6511),(6517,6527),(6572,6575),(6602,6607),(6619,6621),
  (6684,6685),(6751,6751),(6781,6782),(6794,6799),(6810,6815),(6830,6831),(6878,6879),(6892,6911),
  (6989,6989),(7156,7163),(7224,7226),(7242,7244),(7307,7311),(7355,7356),(7368,7375),(7419,7423),
  (7958,7959),(7966,7967),(8006,8007),(8014,8015),(8024,8024),(8026,8026),(8028,8028),(8030,8030),
  (8062,8063),(8117,8117),(8133,8133),(8148,8149),(8156,8156),(8176,8177),(8181,8181),(8191,8207),
  (8232,8239),(8287,8303),(8306,8307),(8335,8335),(8349,8351),(8386,8399),(8433,8447),(8588,8591),
  (9258,9279),(9291,9311),(11124,11125),(11508,11512),(11558,11558),(11560,11564),(11566,11567),
  (11624,11630),(11633,11646),(11671,11679),(11687,11687),(11695,11695),(11703,11703),(11711,11711),
  (11719,11719),(11727,11727),(11735,11735),(11743,11743),(11870,11903),(11930,11930),(12020,12031),
  (12246,12271),(12288,12288),(12352,12352),(12439,12440),(12544,12548),(12592,12592),(12644,12644),
  (12687,12687),(12774,12782),(12831,12831),(42125,42127),(42183,42191),(42540,42559),(42744,42751),
  (42973,42992),(43053,43055),(43066,43071),(43128,43135),(43206,43213),(43226,43231),(43348,43358),
  (43389,43391),(43470,43470),(43482,43485),(43519,43519),(43575,43583),(43598,43599),(43610,43611),
  (43715,43738),(43767,43776),(43783,43784),(43791,43792),(43799,43807),(43815,43815),(43823,43823),
  (43884,43887),(44014,44015),(44026,44031),(55204,55215),(55239,55242),(55292,63743),(64110,64111),
  (64218,64255),(64263,64274),(64280,64284),(64311,64311),(64317,64317),(64319,64319),(64322,64322),
  (64325,64325),(64976,65007),(65024,65039),(65050,65055),(65107,65107),(65127,65127),(65132,65135),
  (65141,65141),(65277,65280),(65440,65440),(65471,65473),(65480,65481),(65488,65489),(65496,65497),
  (65501,65503),(65511,65511),(65519,65531),(65534,65535),(65548,65548),(65575,65575),(65595,65595),
  (65598,65598),(65614,65615),(65630,65663),(65787,65791),(65795,65798),(65844,65846),(65935,65935),
  (65949,65951),(65953,65999),(66046,66175),(66205,66207),(66257,66271),(66300,66303),(66340,66348),
  (66379,66383),(66427,66431),(66462,66462),(66500,66503),(66518,66559),(66718,66719),(66730,66735),
  (66772,66775),(66812,66815),(66856,66863),(66916,66926),(66939,66939),(66955,66955),(66963,66963),
  (66966,66966),(66978,66978),(66994,66994),(67002,67002),(67005,67007),(67060,67071),(67383,67391),
  (67414,67423),(67432,67455),(67462,67462),(67505,67505),(67515,67583),(67590,67591),(67593,67593),
  (67638,67638),(67641,67643),(67645,67646),(67670,67670),(67743,67750),(67760,67807),(67827,67827),
  (67830,67834),(67868,67870),(67898,67902),(67930,67967),(68024,68027),(68048,68049),(68100,68100),
  (68103,68107),(68116,68116),(68120,68120),(68150,68151),(68155,68158),(68169,68175),(68185,68191),
  (68256,68287),(68327,68330),(68343,68351),(68406,68408),(68438,68439),(68467,68471),(68498,68504),
  (68509,68520),(68528,68607),(68681,68735),(68787,68799),(68851,68857),(68904,68911),(68922,68927),
  (68966,68968),(68998,69005),(69008,69215),(69247,69247),(69290,69290),(69294,69295),(69298,69313),
  (69320,69327),(69337,69369),(69416,69423),(69466,69487),(69514,69551),(69580,69599),(69623,69631),
  (69710,69713),(69750,69758),(69821,69821),(69827,69839),(69865,69871),(69882,69887),(69941,69941),
  (69960,69967),(70007,70015),(70112,70112),(70133,70143),(70162,70162),(70210,70271),(70279,70279),
  (70281,70281),(70286,70286),(70302,70302),(70314,70319),(70379,70383),(70394,70399),(70404,70404),
  (70413,70414),(70417,70418),(70441,70441),(70449,70449),(70452,70452),(70458,70458),(70469,70470),
  (70473,70474),(70478,70479),(70481,70486),(70488,70492),(70500,70501),(70509,70511),(70517,70527),
  (70538,70538),(70540,70541),(70543,70543),(70582,70582),(70593,70593),(70595,70596),(70598,70598),
  (70603,70603),(70614,70614),(70617,70624),(70627,70655),(70748,70748),(70754,70783),(70856,70863),
  (70874,71039),(71094,71095),(71134,71167),(71237,71247),(71258,71263),(71277,71295),(71354,71359),
  (71370,71375),(71396,71423),(71451,71452),(71468,71471),(71495,71679),(71740,71839),(71923,71934),
  (71943,71944),(71946,71947),(71956,71956),(71959,71959),(71990,71990),(71993,71994),(72007,72015),
  (72026,72095),(72104,72105),(72152,72153),(72165,72191),(72264,72271),(72355,72367),(72441,72447),
  (72458,72543),(72552,72639),(72674,72687),(72698,72703),(72713,72713),(72759,72759),(72774,72783),
  (72813,72815),(72848,72849),(72872,72872),(72887,72959),(72967,72967),(72970,72970),(73015,73017),
  (73019,73019),(73022,73022),(73032,73039),(73050,73055),(73062,73062),(73065,73065),(73103,73103),
  (73106,73106),(73113,73119),(73130,73135),(73180,73183),(73194,73439),(73465,73471),(73489,73489),
  (73531,73533),(73563,73647),(73649,73663),(73714,73726),(74650,74751),(74863,74863),(74869,74879),
  (75076,77711),(77811,77823),(78896,78911),(78934,78943),(82939,82943),(83527,90367),(90426,92159),
  (92729,92735),(92767,92767),(92778,92781),(92863,92863),(92874,92879),(92910,92911),(92918,92927),
  (92998,93007),(93018,93018),(93026,93026),(93048,93052),(93072,93503),(93562,93759),(93851,93855),
  (93881,93882),(93908,93951),(94027,94030),(94088,94094),(94112,94175),(94181,94191),(94199,94207),
  (101590,101630),(101663,101759),(101875,110575),(110580,110580),(110588,110588),(110591,110591),
  (110883,110897),(110899,110927),(110931,110932),(110934,110947),(110952,110959),(111356,113663),
  (113771,113775),(113789,113791),(113801,113807),(113818,113819),(113824,117759),(118013,118015),
  (118452,118457),(118481,118495),(118513,118527),(118574,118575),(118599,118607),(118724,118783),
  (119030,119039),(119079,119080),(119155,119162),(119275,119295),(119366,119487),(119508,119519),
  (119540,119551),(119639,119647),(119673,119807),(119893,119893),(119965,119965),(119968,119969),
  (119971,119972),(119975,119976),(119981,119981),(119994,119994),(119996,119996),(120004,120004),
  (120070,120070),(120075,120076),(120085,120085),(120093,120093),(120122,120122),(120127,120127),
  (120133,120133),(120135,120137),(120145,120145),(120486,120487),(120780,120781),(121484,121498),
  (121504,121504),(121520,122623),(122655,122660),(122667,122879),(122887,122887),(122905,122906),
  (122914,122914),(122917,122917),(122923,122927),(122990,123022),(123024,123135),(123181,123183),
  (123198,123199),(123210,123213),(123216,123535),(123567,123583),(123642,123646),(123648,124111),
  (124154,124367),(124411,124414),(124416,124607),(124639,124639),(124662,124669),(124672,124895),
  (124903,124903),(124908,124908),(124911,124911),(124927,124927),(125125,125126),(125143,125183),
  (125260,125263),(125274,125277),(125280,126064),(126133,126208),(126270,126463),(126468,126468),
  (126496,126496),(126499,126499),(126501,126502),(126504,126504),(126515,126515),(126520,126520),
  (126522,126522),(126524,126529),(126531,126534),(126536,126536),(126538,126538),(126540,126540),
  (126544,126544),(126547,126547),(126549,126550),(126552,126552),(126554,126554),(126556,126556),
  (126558,126558),(126560,126560),(126563,126563),(126565,126566),(126571,126571),(126579,126579),
  (126584,126584),(126589,126589),(126591,126591),(126602,126602),(126620,126624),(126628,126628),
  (126634,126634),(126652,126703),(126706,126975),(127020,127023),(127124,127135),(127151,127152),
  (127168,127168),(127184,127184),(127222,127231),(127406,127461),(127491,127503),(127548,127551),
  (127561,127567),(127570,127583),(127590,127743),(128729,128731),(128749,128751),(128765,128767),
  (128986,128991),(129004,129007),(129009,129023),(129036,129039),(129096,129103),(129114,129119),
  (129160,129167),(129198,129199),(129212,129215),(129218,129231),(129241,129279),(129624,129631),
  (129646,129647),(129661,129663),(129675,129677),(129735,129735),(129737,129740),(129757,129758),
  (129771,129774),(129785,129791),(129939,129939),(130043,131071),(173792,173823),(178206,178207),
  (183982,183983),(191457,191471),(192094,194559),(195102,196607),(201547,201551),(210042,1114111)]

def extendingRanges : List (Nat × Nat) := [
  (768,879),(1155,1161),(1425,1469),(1471,1471),(1473,1474),(1476,1477),(1479,1479),(1552,1562),
  (1611,1631),(1648,1648),(1750,1756),(1759,1764),(1767,1768),(1770,1773),(1809,1809),(1840,1866),
  (1958,1968),(2027,2035),(2045,2045),(2070,2073),(2075,2083),(2085,2087),(2089,2093),(2137,2139),
  (2199,2207),(2250,2273),(2275,2306),(2362,2362),(2364,2364),(2369,2376),(2381,2381),(2385,2391),
  (2402,2403),(2433,2433),(2492,2492),(2494,2494),(2497,2500),(2509,2509),(2519,2519),(2530,2531),
  (2558,2558),(2561,2562),(2620,2620),(2625,2626),(2631,2632),(2635,2637),(2641,2641),(2672,2673),
  (2677,2677),(2689,2690),(2748,2748),(2753,2757),(2759,2760),(2765,2765),(2786,2787),(2810,2815),
  (2817,2817),(2876,2876),(2878,2879),(2881,2884),(2893,2893),(2901,2903),(2914,2915),(2946,2946),
  (3006,3006),(3008,3008),(3021,3021),(3031,3031),(3072,3072),(3076,3076),(3132,3132),(3134,3136),
  (3142,3144),(3146,3149),(3157,3158),(3170,3171),(3201,3201),(3260,3260),(3263,3264),(3266,3266),
  (3270,3272),(3274,3277),(3285,3286),(3298,3299),(3328,3329),(3387,3388),(3390,3390),(3393,3396),
  (3405,3405),(3415,3415),(3426,3427),(3457,3457),(3530,3530),(3535,3535),(3538,3540),(3542,3542),
  (3551,3551),(3633,3633),(3636,3642),(3655,3662),(3761,3761),(3764,3772),(3784,3790),(3864,3865),
  (3893,3893),(3895,3895),(3897,3897),(3953,3966),(3968,3972),(3974,3975),(3981,3991),(3993,4028),
  (4038,4038),(4141,4144),(4146,4151),(4153,4154),(4157,4158),(4184,4185),(4190,4192),(4209,4212),
  (4226,4226),(4229,4230),(4237,4237),(4253,4253),(4957,4959),(5906,5909),(5938,5940),(5970,5971),
  (6002,6003),(6068,6069),(6071,6077),(6086,6086),(6089,6099),(6109,6109),(6155,6157),(6159,6159),
  (6277,6278),(6313,6313),(6432,6434),(6439,6440),(6450,6450),(6457,6459),(6679,6680),(6683,6683),
  (6742,6742),(6744,6750),(6752,6752),(6754,6754),(6757,6764),(6771,6780),(6783,6783),(6832,6877),
  (6880,6891),(6912,6915),(6964,6973),(6978,6980),(7019,7027),(7040,7041),(7074,7077),(7080,7085),
  (7142,7142),(7144,7145),(7149,7149),(7151,7155),(7212,7219),(7222,7223),(7376,7378),(7380,7392),
  (7394,7400),(7405,7405),(7412,7412),(7416,7417),(7616,7679),(8204,8204),(8400,8432),(11503,11505),
  (11647,11647),(11744,11775),(12330,12335),(12441,12442),(42607,42610),(42612,42621),(42654,42655),
  (42736,42737),(43010,43010),(43014,43014),(43019,43019),(43045,43046),(43052,43052),(43204,43205),
  (43232,43249),(43263,43263),(43302,43309),(43335,43345),(43347,43347),(43392,43394),(43443,43443),
  (43446,43449),(43452,43453),(43456,43456),(43493,43493),(43561,43566),(43569,43570),(43573,43574),
  (43587,43587),(43596,43596),(43644,43644),(43696,43696),(43698,43700),(43703,43704),(43710,43711),
  (43713,43713),(43756,43757),(43766,43766),(44005,44005),(44008,44008),(44013,44013),(64286,64286),
  (65024,65039),(65056,65071),(66045,66045),(66272,66272),(66422,66426),(68097,68099),(68101,68102),
  (68108,68111),(68152,68154),(68159,68159),(68325,68326),(68900,68903),(68969,68973),(69291,69292),
  (69370,69375),(69446,69456),(69506,69509),(69633,69633),(69688,69702),(69744,69744),(69747,69748),
  (69759,69761),(69811,69814),(69817,69818),(69826,69826),(69888,69890),(69927,69931),(69933,69940),
  (70003,70003),(70016,70017),(70070,70078),(70080,70080),(70089,70092),(70095,70095),(70191,70193),
  (70196,70199),(70206,70206),(70209,70209),(70367,70367),(70371,70378),(70400,70401),(70459,70460),
  (70462,70462),(70464,70464),(70477,70477),(70487,70487),(70502,70508),(70512,70516),(70584,70584),
  (70587,70592),(70594,70594),(70597,70597),(70599,70601),(70606,70608),(70610,70610),(70625,70626),
  (70712,70719),(70722,70724),(70726,70726),(70750,70750),(70832,70832),(70835,70840),(70842,70842),
  (70845,70845),(70847,70848),(70850,70851),(71087,71087),(71090,71093),(71100,71101),(71103,71104),
  (71132,71133),(71219,71226),(71229,71229),(71231,71232),(71339,71339),(71341,71341),(71344,71351),
  (71453,71453),(71455,71455),(71458,71461),(71463,71467),(71727,71735),(71737,71738),(71984,71984),
  (71995,71998),(72003,72003),(72148,72151),(72154,72155),(72160,72160),(72193,72202),(72243,72248),
  (72251,72254),(72263,72263),(72273,72278),(72281,72283),(72330,72342),(72344,72345),(72544,72544),
  (72546,72548),(72550,72550),(72752,72758),(72760,72765),(72767,72767),(72850,72871),(72874,72880),
  (72882,72883),(72885,72886),(73009,73014),(73018,73018),(73020,73021),(73023,73029),(73031,73031),
  (73104,73105),(73109,73109),(73111,73111),(73459,73460),(73472,73473),(73526,73530),(73536,73538),
  (73562,73562),(78912,78912),(78919,78933),(90398,90409),(90413,90415),(92912,92916),(92976,92982),
  (94031,94031),(94095,94098),(94180,94180),(94192,94193),(113821,113822),(118528,118573),
  (118576,118598),(119141,119145),(119149,119154),(119163,119170),(119173,119179),(119210,119213),
  (119362,119364),(121344,121398),(121403,121452),(121461,121461),(121476,121476),(121499,121503),
  (121505,121519),(122880,122886),(122888,122904),(122907,122913),(122915,122916),(122918,122922),
  (123023,123023),(123184,123190),(123566,123566),(123628,123631),(124140,124143),(124398,124399),
  (124643,124643),(124646,124646),(124654,124655),(124661,124661),(125136,125142),(125252,125258),
  (917536,917631),(917760,917999)]

def inRanges (n : Nat) (table : List (Nat × Nat)) : Bool :=
  table.any fun r => r.1 ≤ n && n ≤ r.2

end AmqpClient.Text
